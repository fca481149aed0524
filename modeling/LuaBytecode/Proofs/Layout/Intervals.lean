import LuaBytecode.Proofs.Layout
import Mathlib

/-! Fields as intervals of bits. Masks share no bit exactly if the intervals are disjoint, so the check
of a table, which only ever looks at masks, passes exactly the tables whose fields lie apart. -/
namespace LuaBytecode

namespace Field

/-- The numbers of the bits of a field. -/
def interval (f : Field) : Set Int := Set.Ico f.offset (f.offset + f.width)

theorem fitsWord_op : op.FitsWord := ⟨by decide, by decide, by decide⟩

theorem interval_op : op.interval = Set.Ico 0 6 := rfl

namespace FitsWord
variable {f g : Field}

theorem testBit_mask_iff_mem (hf : f.FitsWord) (i : Nat) :
    f.mask.testBit i = true ↔ (i : Int) ∈ f.interval := hf.testBit_mask_iff i

/-- Every bit of a field has a number that can be tested in its mask. -/
theorem exists_of_mem (hf : f.FitsWord) {i : Int} (hi : i ∈ f.interval) :
    ∃ n : Nat, (n : Int) = i ∧ f.mask.testBit n = true := by
  have hnonneg : 0 ≤ i := hf.offset_nonneg.trans hi.1
  obtain ⟨n, rfl⟩ := Int.eq_ofNat_of_zero_le hnonneg
  exact ⟨n, rfl, (hf.testBit_mask_iff_mem n).mpr hi⟩

theorem mask_and_mask_eq_zero_iff (hf : f.FitsWord) (hg : g.FitsWord) :
    f.mask &&& g.mask = 0 ↔ Disjoint f.interval g.interval := by
  rw [Set.disjoint_left]
  constructor
  · intro hzero i hi hi'
    obtain ⟨n, rfl, hbit⟩ := hf.exists_of_mem hi
    have hboth : (f.mask &&& g.mask).testBit n = true := by
      rw [Nat.testBit_and, hbit, (hg.testBit_mask_iff_mem n).mpr hi']
      rfl
    rw [hzero, Nat.zero_testBit] at hboth
    cases hboth
  · intro hdisjoint
    apply Nat.eq_of_testBit_eq
    intro n
    rw [Nat.zero_testBit, Nat.testBit_and, Bool.and_eq_false_imp, ← Bool.not_eq_true]
    intro hbit hbit'
    apply hdisjoint ((hf.testBit_mask_iff_mem n).mp hbit)
    exact (hg.testBit_mask_iff_mem n).mp hbit'

end FitsWord
end Field

/-- Fields of which there is at least one, each in a word of 32 bits, clear of the six bits of the
opcode and of one another. -/
structure LieApart (fields : List Field) : Prop where
  nonempty : fields ≠ []
  inside : ∀ f ∈ fields, 0 ≤ f.offset ∧ 1 ≤ f.width ∧ f.offset + f.width ≤ 32
  clear : ∀ f ∈ fields, Disjoint (Set.Ico 0 6) f.interval
  apart : fields.Pairwise fun f g => Disjoint f.interval g.interval

/-- What the running mask of the check finds is what the intervals say. -/
theorem lieApart_iff {fields : List Field} :
    LieApart fields ↔ fields ≠ [] ∧ Separate Field.op.mask fields := by
  constructor
  · intro h
    have hfits : ∀ f ∈ fields, f.FitsWord := by
      intro f hf
      obtain ⟨hoffset, hwidth, hstop⟩ := h.inside f hf
      exact ⟨hoffset, hwidth, hstop⟩
    refine ⟨h.nonempty, hfits, ?_, ?_⟩
    · intro f hf
      rw [Field.fitsWord_op.mask_and_mask_eq_zero_iff (hfits f hf), Field.interval_op]
      exact h.clear f hf
    · apply h.apart.imp_of_mem
      intro f g hf hg hdisjoint
      exact ((hfits f hf).mask_and_mask_eq_zero_iff (hfits g hg)).mpr hdisjoint
  · intro ⟨hne, hseparate⟩
    have hfits := hseparate.fits
    refine ⟨hne, ?_, ?_, ?_⟩
    · intro f hf
      exact ⟨(hfits f hf).offset_nonneg, (hfits f hf).width_pos, (hfits f hf).stop_le⟩
    · intro f hf
      rw [← Field.interval_op, ← Field.fitsWord_op.mask_and_mask_eq_zero_iff (hfits f hf)]
      exact hseparate.free f hf
    · apply hseparate.pairwise.imp_of_mem
      intro f g hf hg hzero
      exact ((hfits f hf).mask_and_mask_eq_zero_iff (hfits g hg)).mp hzero

namespace LayoutTable

theorem check_eq_ok_iff_lieApart {table : LayoutTable} :
    table.check = .ok () ↔
      ∀ layout : Layout, ∃ fields, table.fieldsOf? layout.name = some fields ∧ LieApart fields := by
  rw [check_eq_ok_iff]
  simp only [lieApart_iff]

/-- The check passes exactly the tables that give each of the seven layouts fields that lie apart, and
every other table is at fault as a table: no offset or width of a field leads to a shift by a negative
count. -/
theorem check_outcome (table : LayoutTable) :
    (table.check = .ok () ↔
      ∀ layout : Layout, ∃ fields, table.fieldsOf? layout.name = some fields ∧ LieApart fields) ∧
    ((¬ ∀ layout : Layout, ∃ fields,
        table.fieldsOf? layout.name = some fields ∧ LieApart fields) →
      ∃ fault, table.check = .error fault ∧ fault.category = .registry) := by
  refine ⟨check_eq_ok_iff_lieApart, ?_⟩
  intro hbad
  rw [← check_eq_ok_iff_lieApart] at hbad
  cases hcheck : table.check with
  | ok _ => exact absurd hcheck hbad
  | error fault => exact ⟨fault, rfl, category_of_check hcheck⟩

/-- Fields that touch lie apart, also out of order and with a free bit between the opcode and the first
of them. A field of negative width is refused, though its mask cannot be taken. -/
theorem check_outcome_touching :
    let low : Field := { name := "X", offset := 7, width := 12, coding := .index }
    let high : Field := { name := "Y", offset := 19, width := 13 }
    let backward : Field := { name := "Z", offset := 20, width := -3, coding := .biased }
    LieApart [high, low] ∧ backward.mask? = .error .negativeShift ∧
      ∃ fault, (standard.replace "iAx" [low, backward]).check = .error fault ∧
        fault.category = .registry := by
  intro low high backward
  refine ⟨?_, rfl, ?_⟩
  · have hcheck : (standard.replace "iAx" [high, low]).check = .ok () := by decide
    obtain ⟨fields, hfields, happart⟩ := (check_outcome _).1.mp hcheck .ax
    cases hfields
    exact happart
  · apply (check_outcome _).2
    intro hall
    obtain ⟨fields, hfields, happart⟩ := hall .ax
    cases hfields
    have hwidth := (happart.inside backward (by simp)).2.1
    exact absurd hwidth (by decide)

end LayoutTable
end LuaBytecode
