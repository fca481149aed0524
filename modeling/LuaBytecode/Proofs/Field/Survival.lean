import LuaBytecode.Proofs.Bits.Counts
import LuaBytecode.Proofs.Field

/-! Values that survive a field. What is read from a field of any word and stored again gives the bits of
the field back, and the values that come back unchanged are those of the range and, in a biased field,
the one below it. -/
namespace LuaBytecode.Field
open Bits.Checked (Yields)

/-- The one value that a biased field keeps outside its range is the next one below. -/
theorem least_eq_pred {f : Field} (hf : f.coding = .biased) :
    -(2 ^ (f.bits - 1) : Int) = f.range.1 - 1 := by
  have hk := Bits.biasLimit_eq f.bits
  simp only [range, hf]
  omega

/-- Reading a field of at least one bit and storing the value gives back the word with all other bits
cleared, for every integer as the word. A value that is stored is read back exactly if it lies in the
range of the field or, where the field is biased, just below it; every value that can be read is such a
value. For a field from outside the same comes out, as long as no number is too long to be built. -/
theorem survives_iff (f : Field) (hoffset : 0 ≤ f.offset) (hwidth : 1 ≤ f.width) :
    (∀ word : Int, (f.place (f.read word) : Int) = Int.land word f.mask) ∧
    (∀ value : Int, f.read (f.place value) = value ↔
      (f.range.1 ≤ value ∧ value ≤ f.range.2) ∨
        (f.coding = .biased ∧ value = -(2 ^ (f.bits - 1) : Int))) ∧
    (f.coding = .biased → -(2 ^ (f.bits - 1) : Int) = f.range.1 - 1) ∧
    (∀ word : Int,
      (f.range.1 ≤ f.read word ∧ f.read word ≤ f.range.2) ∨
        (f.coding = .biased ∧ f.read word = -(2 ^ (f.bits - 1) : Int))) ∧
    (∀ word, Yields f.bits (f.read? word) (f.read word)) ∧
    (∀ value, Yields (max f.low f.bits) (f.place? value) (f.place value)) ∧
    Yields f.bits f.range? f.range ∧
    Yields (max f.low f.bits) f.mask? f.mask := by
  have hf : f.Proper := ⟨hoffset, hwidth⟩
  refine ⟨f.place_read_eq_land, ?_, least_eq_pred, represents_read hf.bits_pos, hf.yields_read?,
    hf.yields_place?, hf.yields_range?, hf.yields_mask?⟩
  intro value
  exact read_place_iff hf.bits_pos

/-- In a biased field of one bit there are two values, nought and the one below its range; a field of a
hundred bits keeps the bits of a negative word. -/
theorem survives_iff_narrow :
    let sign : Field := { name := "S", offset := 40, width := 1, coding := .biased }
    let wide : Field := { name := "W", offset := 3, width := 100, coding := .index }
    sign.range = (0, 0) ∧ sign.read (sign.place (-1)) = -1 ∧ sign.read (sign.place 1) ≠ 1 ∧
      (wide.place (wide.read (-5)) : Int) = Int.land (-5) wide.mask := by
  intro sign wide
  have hsign := (survives_iff sign (by decide) (by decide)).2.1
  refine ⟨by decide, (hsign (-1)).mpr (.inr ⟨rfl, by decide⟩), ?_,
    (survives_iff wide (by decide) (by decide)).1 (-5)⟩
  rw [ne_eq, hsign]
  decide

end LuaBytecode.Field
