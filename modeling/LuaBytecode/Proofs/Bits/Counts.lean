import LuaBytecode.Field
import LuaBytecode.Proofs.Bits
import LuaBytecode.Proofs.Outcome

/-! Counts of bits from outside. Where no count is negative, the checked operations give what the
operations on bits give; a number that would be too long is all that can stand in their way. -/
namespace LuaBytecode

namespace Bits.Checked
open Outcome
variable {α β : Type} {most most' : Nat}

/-- The computation gives the value, unless it has to shift by too many bits; it never has to shift by
more than `most`. -/
def Yields (most : Nat) (x : Except Fault α) (value : α) : Prop :=
  x = .ok value ∨ ∃ count, maxBits < count ∧ count ≤ most ∧ x = .error (.tooManyBits count)

namespace Yields
variable {x : Except Fault α} {a : α}

theorem ok (most : Nat) (a : α) : Yields most (.ok a) a := .inl rfl

theorem mono (h : Yields most x a) (hle : most ≤ most') : Yields most' x a := by
  rcases h with h | ⟨count, hmax, hmost, h⟩
  · exact .inl h
  · exact .inr ⟨count, hmax, hmost.trans hle, h⟩

theorem bind {f : α → Except Fault β} {b : β} (hx : Yields most x a) (hf : Yields most (f a) b) :
    Yields most (x >>= f) b := by
  rcases hx with rfl | ⟨count, hmax, hmost, rfl⟩
  · exact hf
  · exact .inr ⟨count, hmax, hmost, rfl⟩

/-- Within the limit nothing stands in the way. -/
theorem eq_ok (h : Yields most x a) (hle : most ≤ maxBits) : x = .ok a := by
  rcases h with h | ⟨count, hmax, hmost, _⟩
  · exact h
  · omega

end Yields

theorem maxBits_eq : maxBits = 2 ^ 40 := bit_eq 40

theorem shiftCount_natCast (count : Nat) : shiftCount count = .ok count := by
  rw [shiftCount, if_neg (Int.not_lt.mpr (Int.natCast_nonneg count)), Int.toNat_natCast]

private theorem yields_bitCount (count : Nat) : Yields count (bitCount count) count := by
  rw [bitCount, if_neg (Int.not_lt.mpr (Int.natCast_nonneg count)), Int.toNat_natCast]
  split_ifs with hmax
  · exact .inr ⟨count, Int.ofNat_lt.mp hmax, le_rfl, rfl⟩
  · exact .ok count count

private theorem yields_shiftUp (value count : Nat) :
    Yields count (shiftUp value count) (value <<< count) := by
  rw [shiftUp]
  split_ifs with hzero
  · rw [shiftCount_natCast, hzero, Nat.zero_shiftLeft]
    exact .ok count 0
  · exact (yields_bitCount count).bind (.ok count _)

private theorem yields_mask (width : Nat) : Yields width (mask width) (Bits.mask width) :=
  (yields_bitCount width).bind (.ok width _)

theorem yields_extract (word : Int) (offset width : Nat) :
    Yields width (extract word offset width) (Bits.extract word offset width) := by
  rw [extract, shiftCount_natCast, ok_bind]
  exact (yields_bitCount width).bind (.ok width _)

theorem yields_pack (value : Int) (offset width : Nat) :
    Yields (max offset width) (pack value offset width) (Bits.pack value offset width) := by
  apply Yields.bind ((yields_bitCount width).mono (le_max_right offset width))
  exact (yields_shiftUp _ offset).mono (le_max_left offset width)

private theorem yields_biasedWidth {width : Nat} (h : 0 < width) :
    Yields width (biasedWidth width) width := by
  obtain ⟨n, rfl⟩ := Nat.exists_eq_add_of_lt h
  have hpred : ((0 + n + 1 : Nat) : Int) - 1 = n := by omega
  rw [biasedWidth, hpred, Nat.zero_add]
  exact ((yields_bitCount n).mono n.le_succ).bind (.ok (n + 1) _)

end Bits.Checked

namespace Field
open Bits.Checked

/-- A field of at least one bit whose lowest bit has a number. -/
structure Proper (f : Field) : Prop where
  offset_nonneg : 0 ≤ f.offset
  width_pos : 0 < f.width

namespace Proper
variable {f : Field}

theorem offset_eq (h : f.Proper) : f.offset = (f.low : Int) := (Int.toNat_of_nonneg h.offset_nonneg).symm

theorem width_eq (h : f.Proper) : f.width = (f.bits : Int) := (Int.toNat_of_nonneg h.width_pos.le).symm

theorem bits_pos (h : f.Proper) : 0 < f.bits := by
  have hwidth := h.width_pos
  rw [h.width_eq] at hwidth
  exact Int.ofNat_lt.mp hwidth

private theorem yields_bits? (h : f.Proper) : Yields f.bits f.bits? f.bits := by
  rw [bits?, h.width_eq]
  cases f.coding with
  | plain => exact yields_bitCount f.bits
  | biased => exact yields_biasedWidth h.bits_pos
  | index => exact yields_bitCount f.bits

theorem yields_range? (h : f.Proper) : Yields f.bits f.range? f.range :=
  h.yields_bits?.bind (.ok f.bits f.range)

theorem yields_mask? (h : f.Proper) : Yields (max f.low f.bits) f.mask? f.mask := by
  rw [mask?, h.width_eq, h.offset_eq]
  apply Yields.bind ((yields_mask f.bits).mono (le_max_right f.low f.bits))
  exact (yields_shiftUp _ f.low).mono (le_max_left f.low f.bits)

theorem yields_place? (h : f.Proper) (value : Int) :
    Yields (max f.low f.bits) (f.place? value) (f.place value) := by
  rw [place?]
  apply Yields.bind (h.yields_bits?.mono (le_max_right f.low f.bits))
  rw [h.width_eq, h.offset_eq]
  exact yields_pack (f.stored value) f.low f.bits

theorem yields_read? (h : f.Proper) (word : Int) : Yields f.bits (f.read? word) (f.read word) := by
  rw [read?, h.width_eq, h.offset_eq]
  apply (yields_extract word f.low f.bits).bind
  exact h.yields_bits?.bind (.ok f.bits (f.read word))

end Proper
end Field
end LuaBytecode
