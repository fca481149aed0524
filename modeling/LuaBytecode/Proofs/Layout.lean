import LuaBytecode.Proofs.Bits.Counts
import LuaBytecode.Proofs.Instruction.Packing

/-! Layout tables that pass the check: their fields lie in a word and share no bits, so whatever is
packed into them can be read from the whole word as if each value stood alone. -/
namespace LuaBytecode

namespace Field

/-- A field of at least one bit that lies in a word of 32 bits. -/
structure FitsWord (f : Field) : Prop where
  offset_nonneg : 0 ≤ f.offset
  width_pos : 0 < f.width
  stop_le : f.stop ≤ 32

theorem fitsWord_iff {f : Field} :
    f.FitsWord ↔ ¬ (f.offset < 0 ∨ f.width ≤ 0 ∨ f.stop > 32) := by
  constructor
  · rintro ⟨hoffset, hwidth, hstop⟩
    omega
  · intro h
    exact ⟨by omega, by omega, by omega⟩

theorem testBit_mask (f : Field) (i : Nat) :
    f.mask.testBit i = decide (f.low ≤ i ∧ i < f.low + f.bits) := by
  rw [mask, Bits.mask_eq, Nat.testBit_shiftLeft, Nat.testBit_two_pow_sub_one]
  by_cases hlow : f.low ≤ i
  · have hsub : i - f.low < f.bits ↔ i < f.low + f.bits := by omega
    simp [hlow, hsub]
  · simp [hlow]

namespace FitsWord
variable {f : Field}

theorem proper (h : f.FitsWord) : f.Proper := ⟨h.offset_nonneg, h.width_pos⟩

theorem low_eq (h : f.FitsWord) : (f.low : Int) = f.offset := h.proper.offset_eq.symm

theorem bits_eq (h : f.FitsWord) : (f.bits : Int) = f.width := h.proper.width_eq.symm

theorem bits_pos (h : f.FitsWord) : 0 < f.bits := h.proper.bits_pos

private theorem low_add_bits_le (h : f.FitsWord) : f.low + f.bits ≤ 32 := by
  have hlow := h.low_eq
  have hbits := h.bits_eq
  have hstop := h.stop_le
  rw [stop] at hstop
  omega

theorem testBit_mask_iff (h : f.FitsWord) (i : Nat) :
    f.mask.testBit i = true ↔ f.offset ≤ i ∧ (i : Int) < f.stop := by
  have hlow := h.low_eq
  have hbits := h.bits_eq
  rw [testBit_mask, decide_eq_true_iff, stop]
  omega

/-- Every count of bits in a word can be shifted by. -/
theorem max_le_maxBits (h : f.FitsWord) : max f.low f.bits ≤ Bits.Checked.maxBits := by
  have hle := h.low_add_bits_le
  rw [Bits.Checked.maxBits_eq]
  omega

/-- In a field of a word nothing stands in the way of placing a value. -/
theorem place?_eq (h : f.FitsWord) (value : Int) : f.place? value = .ok (f.place value) :=
  (h.proper.yields_place? value).eq_ok h.max_le_maxBits

/-- No field of a word asks for a shift that cannot be made. -/
theorem mask?_eq (h : f.FitsWord) : f.mask? = .ok f.mask :=
  h.proper.yields_mask?.eq_ok h.max_le_maxBits

theorem read?_eq (h : f.FitsWord) (word : Int) : f.read? word = .ok (f.read word) :=
  (h.proper.yields_read? word).eq_ok ((le_max_right f.low f.bits).trans h.max_le_maxBits)

end FitsWord
end Field

/-- Fields that lie in a word and share no bits with those already taken nor with one another. -/
structure Separate (taken : Nat) (fields : List Field) : Prop where
  fits : ∀ f ∈ fields, f.FitsWord
  free : ∀ f ∈ fields, taken &&& f.mask = 0
  pairwise : fields.Pairwise fun f g => f.mask &&& g.mask = 0

private theorem separate_cons_iff {taken : Nat} {f : Field} {fields : List Field} :
    Separate taken (f :: fields) ↔
      f.FitsWord ∧ taken &&& f.mask = 0 ∧ Separate (taken ||| f.mask) fields := by
  have htaken (g : Field) : (taken ||| f.mask) &&& g.mask = 0 ↔
      taken &&& g.mask = 0 ∧ f.mask &&& g.mask = 0 := by
    rw [Nat.and_or_distrib_right, Nat.or_eq_zero_iff]
  constructor
  · rintro ⟨hfits, hfree, hpairwise⟩
    rw [List.forall_mem_cons] at hfits hfree
    rw [List.pairwise_cons] at hpairwise
    exact ⟨hfits.1, hfree.1, hfits.2,
      fun g hg => (htaken g).mpr ⟨hfree.2 g hg, hpairwise.1 g hg⟩, hpairwise.2⟩
  · rintro ⟨hf, hfirst, hfits, hfree, hpairwise⟩
    exact ⟨List.forall_mem_cons.mpr ⟨hf, hfits⟩,
      List.forall_mem_cons.mpr ⟨hfirst, fun g hg => ((htaken g).mp (hfree g hg)).1⟩,
      List.pairwise_cons.mpr ⟨fun g hg => ((htaken g).mp (hfree g hg)).2, hpairwise⟩⟩

namespace LayoutTable
open Outcome

/-- The range of a field is checked before its bits are taken, so each check is one of the two. -/
theorem checkFields_cons (layout : String) (taken : Nat) (f : Field) (fields : List Field) :
    checkFields layout taken (f :: fields) =
      if f.offset < 0 ∨ f.width ≤ 0 ∨ f.stop > 32 then .error (.fieldOutsideWord f.name layout)
      else if taken &&& f.mask ≠ 0 then .error (.fieldOverlap f.name layout)
      else checkFields layout (taken ||| f.mask) fields := by
  rw [checkFields]
  by_cases houtside : f.offset < 0 ∨ f.width ≤ 0 ∨ f.stop > 32
  · rw [if_pos houtside, if_pos houtside]
    rfl
  · have hfits := Field.fitsWord_iff.mpr houtside
    rw [if_neg houtside, if_neg houtside, hfits.mask?_eq, ok_bind]
    by_cases hoverlap : taken &&& f.mask ≠ 0
    · rw [if_pos hoverlap, if_pos hoverlap]
      rfl
    · rw [if_neg hoverlap, if_neg hoverlap]

private theorem checkFields_eq_ok_iff {layout : String} {taken : Nat} {fields : List Field} :
    checkFields layout taken fields = .ok () ↔ Separate taken fields := by
  induction fields generalizing taken with
  | nil => exact ⟨fun _ => ⟨by simp, by simp, List.Pairwise.nil⟩, fun _ => rfl⟩
  | cons f fields ih =>
    rw [checkFields_cons, separate_cons_iff, Field.fitsWord_iff]
    by_cases houtside : f.offset < 0 ∨ f.width ≤ 0 ∨ f.stop > 32
    · simp [houtside]
    by_cases hoverlap : taken &&& f.mask ≠ 0
    · simp [houtside, hoverlap]
    rw [if_neg houtside, if_neg hoverlap, ih]
    exact ⟨fun h => ⟨houtside, not_not.mp hoverlap, h⟩, fun h => h.2.2⟩

private theorem checkLayout_eq_ok_iff {table : LayoutTable} {layout : Layout} :
    table.checkLayout layout = .ok () ↔
      ∃ fields, table.fieldsOf? layout.name = some fields ∧ fields ≠ [] ∧
        Separate Field.op.mask fields := by
  rw [checkLayout]
  rcases table.fieldsOf? layout.name with _ | _ | ⟨f, fields⟩ <;> simp [checkFields_eq_ok_iff]

private theorem forM_eq_ok_iff {α : Type} {check : α → Except Fault Unit} {xs : List α} :
    xs.forM check = .ok () ↔ ∀ x ∈ xs, check x = .ok () := by
  induction xs with
  | nil => simp [pure, Except.pure]
  | cons x xs ih =>
    rw [List.forM_eq_forM, List.forM_cons, bind_eq_ok_iff, List.forall_mem_cons, ← ih]
    exact ⟨fun ⟨_, hx, hxs⟩ => ⟨hx, hxs⟩, fun ⟨hx, hxs⟩ => ⟨(), hx, hxs⟩⟩

/-- A table passes the check exactly if it gives every layout fields that pass. -/
theorem check_eq_ok_iff {table : LayoutTable} :
    table.check = .ok () ↔
      ∀ layout : Layout, ∃ fields, table.fieldsOf? layout.name = some fields ∧ fields ≠ [] ∧
        Separate Field.op.mask fields := by
  have hall (layout : Layout) : layout ∈ Layout.all := by cases layout <;> decide
  rw [check, forM_eq_ok_iff]
  simp only [checkLayout_eq_ok_iff]
  exact ⟨fun h layout => h layout (hall layout), fun h layout _ => h layout⟩

private theorem category_of_checkFields {layout : String} {taken : Nat} {fields : List Field}
    {fault : Fault} (h : checkFields layout taken fields = .error fault) : fault.category = .registry := by
  induction fields generalizing taken with
  | nil => cases h
  | cons f fields ih =>
    rw [checkFields_cons] at h
    split_ifs at h
    · cases h
      rfl
    · cases h
      rfl
    · exact ih h

private theorem category_of_checkLayout {table : LayoutTable} {layout : Layout} {fault : Fault}
    (h : table.checkLayout layout = .error fault) : fault.category = .registry := by
  rw [checkLayout] at h
  split at h
  · cases h
    rfl
  · cases h
    rfl
  · exact category_of_checkFields h

/-- A table that fails the check is at fault as a table. -/
theorem category_of_check {table : LayoutTable} {fault : Fault} (h : table.check = .error fault) :
    fault.category = .registry := by
  rw [check] at h
  generalize Layout.all = layouts at h
  induction layouts with
  | nil => cases h
  | cons layout layouts ih =>
    rw [List.forM_eq_forM, List.forM_cons] at h
    cases hlayout : table.checkLayout layout with
    | error fault' =>
      rw [hlayout] at h
      cases h
      exact category_of_checkLayout hlayout
    | ok _ =>
      rw [hlayout] at h
      exact ih h

end LayoutTable

namespace Operation

private theorem testBit_span {taken : Nat} {fields : List Field} {i : Nat} :
    (span taken fields).testBit i = true ↔
      taken.testBit i = true ∨ ∃ f ∈ fields, f.mask.testBit i = true := by
  induction fields generalizing taken with
  | nil => simp [span]
  | cons f fields ih =>
    have hspan : span taken (f :: fields) = span (taken ||| f.mask) fields := rfl
    rw [hspan, ih, Nat.testBit_or, Bool.or_eq_true, or_assoc]
    simp

/-- The word is the join of its pieces, whichever is taken first. -/
theorem pack_eq_of_perm {opcode : Nat} {fields : List Field} {values : List Int} {pieces : List Nat}
    (h : pieces.Perm (Field.op.place opcode :: List.zipWith Field.place fields values)) :
    pieces.foldl (· ||| ·) 0 = pack opcode fields values := by
  have hjoin (word : Nat) :
      (List.zipWith Field.place fields values).foldl (· ||| ·) word = join word fields values := by
    rw [join, ← List.map_uncurry_zip_eq_zipWith, List.foldl_map]
    rfl
  rw [h.foldl_op_eq, List.foldl_cons, Nat.zero_or, hjoin, pack_eq_join]

section
variable {fields : List Field} {values : List Int} (hfields : Separate Field.op.mask fields)
include hfields

private theorem extract_pack_of_separate {opcode : Nat} (hopcode : opcode ≤ 63) (values : List Int) :
    Bits.extract (pack opcode fields values) 0 6 = opcode := by
  have hword : pack opcode fields values &&& Field.op.mask =
      Field.op.place opcode &&& Field.op.mask := by
    rw [pack_eq_join]
    apply join_and_of_disjoint
    intro f hf
    rw [Nat.and_comm]
    exact hfields.free f hf
  calc
    _ = Bits.extract (Field.op.place opcode) 0 6 := Field.extract_eq_of_and_mask hword
    _ = Bits.lowest opcode 6 := Bits.extract_pack opcode 0 6
    _ = opcode := by rw [Bits.lowest_natCast, Nat.mod_eq_of_lt (by omega)]

private theorem read_pack_of_separate (hlen : values.length = fields.length) (opcode : Nat) :
    ∀ pair ∈ fields.zip values,
      pair.1.read (pack opcode fields values) = pair.1.read (pair.1.place pair.2) := by
  have hword : ∀ f ∈ fields, Field.op.place opcode &&& f.mask = 0 := by
    intro f hf
    rw [← Field.op.place_and_mask, Nat.and_assoc, hfields.free f hf, Nat.and_zero]
  have hread := map_read_join hlen hfields.pairwise hword
  have hpairs (g : Field → Int) : fields.map g = (fields.zip values).map (g ∘ Prod.fst) := by
    rw [← List.map_map, List.map_fst_zip hlen.ge]
  rw [← pack_eq_join, ← List.map_uncurry_zip_eq_zipWith, hpairs] at hread
  exact List.map_inj_left.mp hread

/-- A word has no bits set but those of the opcode and of the fields. -/
theorem testBit_pack_of_separate (hlen : values.length = fields.length) {opcode i : Nat}
    (h : (pack opcode fields values).testBit i = true) :
    i < 6 ∨ ∃ f ∈ fields, f.offset ≤ i ∧ (i : Int) < f.stop := by
  have hspan := join_and_span hlen (Field.op.place_and_mask opcode)
  rw [← pack_eq_join] at hspan
  rw [← hspan, Nat.testBit_and, Bool.and_eq_true, testBit_span] at h
  rcases h.2 with hop | ⟨f, hf, hbit⟩
  · rw [Field.testBit_mask, decide_eq_true_iff] at hop
    exact .inl hop.2
  · exact .inr ⟨f, hf, ((hfields.fits f hf).testBit_mask_iff i).mp hbit⟩

private theorem pack_lt_of_separate (hlen : values.length = fields.length) (opcode : Nat) :
    pack opcode fields values < 2 ^ 32 := by
  apply Nat.lt_pow_two_of_testBit
  intro i hi
  by_contra hbit
  rw [Bool.not_eq_false] at hbit
  rcases testBit_pack_of_separate hfields hlen hbit with hop | ⟨f, hf, hbounds⟩
  · omega
  · have hstop := (hfields.fits f hf).stop_le
    omega

end
end Operation

namespace LayoutTable

/-- A table that passes the check can be packed into without interference. For every layout, opcode and
operands of any size the word has 32 bits, none of them outside the opcode and the fields; the opcode
is read back, and from each field what it gives back of its own operand alone, which is the operand
itself if it is in range; and the pieces of the word can be joined in any order. -/
theorem pack_of_check {table : LayoutTable} (h : table.check = .ok ()) (layout : Layout) :
    ∃ fields, table.fieldsOf? layout.name = some fields ∧
      ∀ (opcode : Nat) (values : List Int), opcode ≤ 63 → values.length = fields.length →
        let word := Operation.pack opcode fields values
        word < 2 ^ 32 ∧ Bits.extract word 0 6 = opcode ∧
        (∀ pair ∈ fields.zip values, pair.1.place? pair.2 = .ok (pair.1.place pair.2) ∧
          pair.1.read? word = .ok (pair.1.read (pair.1.place pair.2)) ∧
          (pair.1.InRange pair.2 → pair.1.read? word = .ok pair.2)) ∧
        (∀ i : Nat, word.testBit i = true →
          i < 6 ∨ ∃ f ∈ fields, f.offset ≤ i ∧ (i : Int) < f.stop) ∧
        ∀ pieces : List Nat,
          pieces.Perm (Field.op.place opcode :: List.zipWith Field.place fields values) →
          pieces.foldl (· ||| ·) 0 = word := by
  obtain ⟨fields, hlookup, _, hfields⟩ := check_eq_ok_iff.mp h layout
  refine ⟨fields, hlookup, fun opcode values hopcode hlen => ?_⟩
  refine ⟨Operation.pack_lt_of_separate hfields hlen opcode,
    Operation.extract_pack_of_separate hfields hopcode values, ?_,
    fun i hi => Operation.testBit_pack_of_separate hfields hlen hi,
    fun pieces hpieces => Operation.pack_eq_of_perm hpieces⟩
  intro pair hpair
  have hfits := hfields.fits pair.1 (List.of_mem_zip hpair).1
  have hread := Operation.read_pack_of_separate hfields hlen opcode pair hpair
  refine ⟨hfits.place?_eq pair.2, ?_, fun hrange => ?_⟩
  · rw [hfits.read?_eq, hread]
  · rw [hfits.read?_eq, hread, (Field.read_place_iff hfits.bits_pos).mpr (.inl hrange)]

/-- A layout of a table of its own: bit 6 belongs to no field and stays clear, an index survives, and of
an operand far out of range one bit is left. -/
theorem pack_of_check_sparse :
    let index : Field := { name := "Y", offset := 7, width := 24, coding := .index }
    let sign : Field := { name := "X", offset := 31, width := 1, coding := .biased }
    let table := standard.replace "iA" [index, sign]
    let word := Operation.pack 63 [index, sign] [-3, 2 ^ 70 + 1]
    table.check = .ok () ∧ table.fieldsOf? "iA" = some [index, sign] ∧
      word < 2 ^ 32 ∧ Bits.extract word 0 6 = 63 ∧ index.read? word = .ok (-3) ∧
      sign.read? word = .ok (-1) ∧ word.testBit 6 = false ∧
      [sign.place (2 ^ 70 + 1), index.place (-3), Field.op.place 63].foldl (· ||| ·) 0 = word := by
  intro index sign table word
  have hcheck : table.check = .ok () := by decide
  have hlookup : table.fieldsOf? "iA" = some [index, sign] := by decide
  obtain ⟨fields, hfields, hpack⟩ := pack_of_check hcheck .a
  cases hlookup.symm.trans hfields
  obtain ⟨hlt, hopcode, hread, hbits, hjoin⟩ := hpack 63 [-3, 2 ^ 70 + 1] (by decide) rfl
  refine ⟨hcheck, hlookup, hlt, hopcode, (hread (index, -3) (by simp)).2.2 (by decide), ?_, ?_, ?_⟩
  · have hsign : sign.read (sign.place (2 ^ 70 + 1)) = -1 := by decide
    rw [← hsign]
    exact (hread (sign, 2 ^ 70 + 1) (by simp)).2.1
  · have hfree : ¬ ∃ f ∈ [index, sign], f.offset ≤ 6 ∧ 6 < f.stop := by decide
    rw [← Bool.not_eq_true]
    intro hbit
    exact (hbits 6 hbit).elim (by omega) hfree
  · apply hjoin
    exact (List.reverse_perm [Field.op.place 63, index.place (-3), sign.place (2 ^ 70 + 1)])

end LayoutTable
end LuaBytecode
