import LuaBytecode.Profile
import LuaBytecode.Proofs.Bytes.Unsigned

/-! Profiles and words: bytes declare a profile exactly if they start with its header, and on every
machine a word is written to bytes that are read as the word. -/
namespace LuaBytecode

namespace Word

theorem bound_eq : bound = 256 ^ size := by decide

theorem ofDatum_natCast {word : Nat} (h : word < bound) : ofDatum (.int word) = .ok word := by
  rw [ofDatum, if_pos ⟨Int.natCast_nonneg word, Int.ofNat_lt.mpr h⟩]
  rfl

end Word

namespace Profile

@[simp] theorem length_header (p : Profile) : p.header.length = headerSize := rfl

theorem hasMarks_iff {data : Bytes} :
    hasMarks data = true ↔
      headerSize ≤ data.length ∧ data.take 6 = signature ∧ (data.drop 12).take 6 = tailMark := by
  simp [hasMarks, and_assoc]

theorem hasMarks_header_append (p : Profile) (rest : Bytes) : hasMarks (p.header ++ rest) = true := by
  simp [hasMarks, header, headerSize, signature, hostBytes, tailMark]

theorem hasMarks_of_take {p : Profile} {data : Bytes} (h : data.take headerSize = p.header) :
    hasMarks data = true := by
  have hmarks := p.hasMarks_header_append (data.drop headerSize)
  rwa [← h, List.take_append_drop] at hmarks

/-! The header and the profile that it declares. -/

/-- Only the bytes of a profile are read as the profile. -/
theorem ofHostBytes_eq_ok_iff {order int size word number integral : UInt8} {p : Profile} :
    ofHostBytes order int size word number integral = .ok p ↔
      [order, int, size, word, number, integral] = p.hostBytes := by
  constructor
  · intro h
    rw [ofHostBytes] at h
    split at h
    · cases h
    rename_i horder
    split at h
    · cases h
    rename_i hword
    split at h
    · cases h
    rename_i intWidth hint
    split at h
    · cases h
    rename_i sizeWidth hsize
    cases h
    have hflag : order = orderFlag (if order = 1 then .little else .big) := by
      by_cases hone : order = 1
      · rw [if_pos hone, hone]
        rfl
      · rw [if_neg hone]
        exact not_not.mp fun hzero => horder ⟨hzero, hone⟩
    have hsizeof : word = UInt8.ofNat Word.size := by
      rw [← not_not.mp hword, UInt8.ofNat_toNat]
    rw [hostBytes, ← hflag, ← hsizeof, ← Width.eq_ofNat_bytes hint, ← Width.eq_ofNat_bytes hsize]
  · intro h
    simp only [hostBytes, List.cons.injEq, and_true] at h
    obtain ⟨rfl, rfl, rfl, rfl, rfl, rfl⟩ := h
    obtain ⟨order, intWidth, sizeWidth, number, integral⟩ := p
    cases order <;> cases intWidth <;> cases sizeWidth <;> rfl

private theorem take_headerSize (data : Bytes) :
    data.take headerSize = data.take 6 ++ ((data.drop 6).take 6 ++ (data.drop 12).take 6) := by
  rw [show headerSize = 6 + (6 + 6) from rfl, List.take_add, List.take_add, List.drop_drop]

/-- Bytes declare a profile exactly if they start with its header. -/
theorem ofHeader_eq_ok_iff {data : Bytes} {p : Profile} :
    ofHeader data = .ok p ↔ data.take headerSize = p.header := by
  constructor
  · intro h
    rw [ofHeader] at h
    split at h
    · cases h
    split at h
    · cases h
    rename_i hmarks
    rw [Bool.not_eq_true', Bool.not_eq_false, hasMarks_iff] at hmarks
    split at h
    · rename_i hbytes
      rw [take_headerSize, hmarks.2.1, hbytes, ofHostBytes_eq_ok_iff.mp h, hmarks.2.2, header,
        List.append_assoc]
    · cases h
  · intro h
    have hmarks := hasMarks_of_take h
    have hlength := (hasMarks_iff.mp hmarks).1
    have hhost : (data.drop 6).take 6 = p.hostBytes := by
      rw [← List.take_append_drop headerSize data, h]
      rfl
    rw [ofHeader, if_neg (Nat.not_lt.mpr hlength), hmarks, if_neg (by simp), hhost]
    exact ofHostBytes_eq_ok_iff.mpr rfl

theorem ofHeader_header (p : Profile) : ofHeader p.header = .ok p :=
  ofHeader_eq_ok_iff.mpr (List.take_of_length_le (Nat.le_of_eq p.length_header))

/-- Profiles are told apart by their headers. -/
theorem header_injective : Function.Injective header := by
  intro p q h
  have hp := ofHeader_header p
  rw [h, ofHeader_header q] at hp
  exact (Except.ok.inj hp).symm

theorem isCompatible_iff {p q : Profile} : p.isCompatible q = true ↔ p.header = q.header := by
  rw [isCompatible, beq_iff_eq]
  exact header_injective.eq_iff.symm

private theorem exists_hostBytes {data : Bytes} (h : headerSize ≤ data.length) :
    ∃ order int size word number integral,
      (data.drop 6).take 6 = [order, int, size, word, number, integral] := by
  have hlength : ((data.drop 6).take 6).length = 6 := by
    rw [List.length_take, List.length_drop]
    rw [headerSize] at h
    omega
  match (data.drop 6).take 6, hlength with
  | [order, int, size, word, number, integral], _ =>
    exact ⟨order, int, size, word, number, integral, rfl⟩

/-- Bytes after the header do not matter. -/
theorem ofHeader_take (data : Bytes) : ofHeader (data.take headerSize) = ofHeader data := by
  by_cases hshort : data.length < headerSize
  · rw [List.take_of_length_le (Nat.le_of_lt hshort)]
  · have hlength : (data.take headerSize).length = headerSize := by
      rw [List.length_take]
      omega
    have hfront : (data.take headerSize).take 6 = data.take 6 := List.take_take
    have hhost : ((data.take headerSize).drop 6).take 6 = (data.drop 6).take 6 := by
      rw [List.drop_take, List.take_take]
      rfl
    have htail : ((data.take headerSize).drop 12).take 6 = (data.drop 12).take 6 := by
      rw [List.drop_take, List.take_take]
      rfl
    have hmarks : hasMarks (data.take headerSize) = hasMarks data := by
      simp only [hasMarks, hlength, hfront, htail, Nat.le_refl, Nat.not_lt.mp hshort]
    obtain ⟨order, int, size, word, number, integral, hbytes⟩ :=
      exists_hostBytes (Nat.not_lt.mp hshort)
    simp only [ofHeader, hlength, hmarks, hhost, hbytes, hshort, Nat.lt_irrefl, if_false]

private theorem category_of_ofHostBytes {order int size word number integral : UInt8} {fault : Fault}
    (h : ofHostBytes order int size word number integral = .error fault) :
    fault.category = .profile := by
  rw [ofHostBytes] at h
  split at h
  · cases h
    rfl
  split at h
  · cases h
    rfl
  split at h
  · cases h
    rfl
  split at h
  · cases h
    rfl
  · cases h

/-- Whatever is wrong with a header is a fault of the profile. -/
theorem category_of_ofHeader {data : Bytes} {fault : Fault} (h : ofHeader data = .error fault) :
    fault.category = .profile := by
  rw [ofHeader] at h
  split_ifs at h
  · cases h
    rfl
  · cases h
    rfl
  split at h
  · exact category_of_ofHostBytes h
  · cases h
    rfl

/-- The greatest count leaves the highest bit of its field clear. -/
theorem maxCount_lt (p : Profile) : p.maxCount < 256 ^ p.intWidth.bytes := by
  rw [maxCount, Bits.mask_eq]
  cases p.intWidth <;> decide

theorem wordBytes_eq (p : Profile) {word : Nat} (h : word < Word.bound) :
    p.wordBytes word = .ok (Unsigned.encode p.order Word.size word) := by
  rw [Word.bound_eq] at h
  exact Unsigned.encode?_natCast h

theorem numberAt_encode (p : Profile) {word : Nat} (h : word < Word.bound) :
    p.numberAt (Unsigned.encode p.order Word.size word) 0 Word.size = .ok word := by
  rw [Word.bound_eq] at h
  have hread := Unsigned.read?_encode_append p.order h []
  rw [List.append_nil] at hread
  have hwidth : Width.ofBytes? (Word.size : Nat) = some .four := by decide
  have hstart : ¬ ((0 : Int) < 0 ∨ (0 : Int) > (Unsigned.encode p.order Word.size word).length) := by
    omega
  rw [numberAt, if_neg hstart, if_neg (by decide), hwidth]
  simp only [Int.toNat_zero, List.drop_zero]
  rw [show Width.four.bytes = Word.size from rfl, hread]

end Profile
end LuaBytecode
