import LuaBytecode.Proofs.Chunk.Opening

/-! The header of a chunk: comparing its bytes with those of a profile and reading a profile from it
come to the same. -/
namespace LuaBytecode

namespace Profile

/-- Bytes declare a profile that goes with another exactly if they start with the header of that
one. -/
theorem exists_isCompatible_iff {p : Profile} {data : Bytes} :
    (∃ q, ofHeader data = .ok q ∧ p.isCompatible q = true) ↔ data.take headerSize = p.header := by
  constructor
  · rintro ⟨q, hq, hcompatible⟩
    rw [ofHeader_eq_ok_iff.mp hq, isCompatible_iff.mp hcompatible]
  · intro h
    exact ⟨p, ofHeader_eq_ok_iff.mpr h, isCompatible_iff.mpr rfl⟩

private theorem take_ne_header_iff {p : Profile} {data : Bytes} :
    data.take headerSize ≠ p.header ↔
      (∃ fault, ofHeader data = .error fault) ∨
        ∃ q, ofHeader data = .ok q ∧ p.isCompatible q = false := by
  rw [ne_eq, ← exists_isCompatible_iff]
  cases ofHeader data with
  | error fault => simp
  | ok q => simp

theorem isCompatible_equivalence : Equivalence fun p q : Profile => p.isCompatible q = true := by
  simp only [isCompatible_iff]
  exact ⟨fun _ => rfl, Eq.symm, Eq.trans⟩

end Profile

namespace Chunk
open Session (openChunk)

/-- What is wrong after the header is never taken for what is wrong with it. -/
theorem bodyDefect?_ne (p : Profile) (data : Bytes) :
    bodyDefect? p data ≠ some .notChunk ∧ bodyDefect? p data ≠ some .otherMachine := by
  rw [bodyDefect?]
  split_ifs <;> simp

private theorem parse_eq_notChunk_iff {p : Profile} {data : Bytes} :
    parse p data = .error .notChunk ↔ Profile.hasMarks data = false := by
  rw [parse_eq_error_iff, defect?]
  cases Profile.hasMarks data with
  | false => simp
  | true =>
    by_cases hheader : data.take Profile.headerSize = p.header
    · simp [hheader, (bodyDefect?_ne p data).1]
    · simp [hheader]

theorem parse_eq_otherMachine_iff {p : Profile} {data : Bytes} :
    parse p data = .error .otherMachine ↔
      Profile.hasMarks data = true ∧ data.take Profile.headerSize ≠ p.header := by
  rw [parse_eq_error_iff, defect?]
  cases Profile.hasMarks data with
  | false => simp
  | true =>
    by_cases hheader : data.take Profile.headerSize = p.header
    · simp [hheader, (bodyDefect?_ne p data).2]
    · simp [hheader]

/-- The checks of the header are passed exactly by the header of the profile. -/
theorem parse_passes_iff {p : Profile} {data : Bytes} :
    (parse p data ≠ .error .notChunk ∧ parse p data ≠ .error .otherMachine) ↔
      data.take Profile.headerSize = p.header := by
  rw [ne_eq, ne_eq, parse_eq_notChunk_iff, parse_eq_otherMachine_iff, Bool.not_eq_false]
  constructor
  · rintro ⟨hmarks, hmachine⟩
    by_contra hheader
    exact hmachine ⟨hmarks, hheader⟩
  · intro hheader
    exact ⟨Profile.hasMarks_of_take hheader, fun hmachine => hmachine.2 hheader⟩

/-- Only the header of another machine gives a fault about the machine. -/
theorem exists_hostMismatch_iff {p : Profile} {data : Bytes} :
    (∃ fault, parse p data = .error fault ∧ fault.category = .hostMismatch) ↔
      Profile.hasMarks data = true ∧ data.take Profile.headerSize ≠ p.header := by
  constructor
  · rintro ⟨fault, hfault, hcategory⟩
    by_contra hother
    rw [category_of_defect? (parse_eq_error_iff.mp hfault), if_neg hother] at hcategory
    cases hcategory
  · intro hother
    exact ⟨_, parse_eq_otherMachine_iff.mpr hother, rfl⟩

/-- Opening a chunk passes the header exactly if the profile that can be read from the bytes goes with
the given one, and then what follows the header decides. It refuses the machine exactly if the bytes
carry the marks of a chunk but no such profile can be read. A profile is read from the header alone,
which is the header of the profile that was read, so that profiles go with one another exactly if their
headers are the same. -/
theorem openChunk_header (p : Profile) (data : Bytes) (t : Settings) (s : Session) :
    (((Session.run (openChunk data (some p)) t s).1 ≠ .error .notChunk ∧
        (Session.run (openChunk data (some p)) t s).1 ≠ .error .otherMachine) ↔
      ∃ q, Profile.ofHeader data = .ok q ∧ p.isCompatible q = true) ∧
    (∀ q, Profile.ofHeader data = .ok q → p.isCompatible q = true →
      (Session.run (openChunk data (some p)) t s).1 = readBody p data.length (data.drop 18)) ∧
    ((∃ fault, (Session.run (openChunk data (some p)) t s).1 = .error fault ∧
        fault.category = .hostMismatch) ↔
      (18 ≤ data.length ∧ data.take 6 = Profile.signature ∧
        (data.drop 12).take 6 = Profile.tailMark) ∧
      ((∃ fault, Profile.ofHeader data = .error fault) ∨
        ∃ q, Profile.ofHeader data = .ok q ∧ p.isCompatible q = false)) ∧
    Profile.ofHeader data = Profile.ofHeader (data.take 18) ∧
    Profile.ofHeader p.header = .ok p ∧
    (∀ data' q q', Profile.ofHeader data = .ok q → Profile.ofHeader data' = .ok q' →
      q.header = data.take 18 ∧ (q.isCompatible q' = true ↔ data.take 18 = data'.take 18)) ∧
    Equivalence fun q q' : Profile => q.isCompatible q' = true := by
  have hrun : (Session.run (openChunk data (some p)) t s).1 = parse p data := by
    rw [Session.run_openChunk]
    cases parse p data <;> rfl
  rw [hrun]
  refine ⟨parse_passes_iff.trans Profile.exists_isCompatible_iff.symm, ?_, ?_,
    (Profile.ofHeader_take data).symm, Profile.ofHeader_header p, ?_,
    Profile.isCompatible_equivalence⟩
  · intro q hq hcompatible
    have hheader := Profile.exists_isCompatible_iff.mp ⟨q, hq, hcompatible⟩
    rw [parse, Profile.hasMarks_of_take hheader, if_neg (by simp), if_neg (not_not.mpr hheader)]
    rfl
  · rw [exists_hostMismatch_iff, Profile.hasMarks_iff, Profile.take_ne_header_iff]
    rfl
  · intro data' q q' hq hq'
    rw [Profile.ofHeader_eq_ok_iff] at hq hq'
    rw [Profile.isCompatible_iff, ← hq, ← hq']
    exact ⟨rfl, Iff.rfl⟩

/-- The flags 1 and 2 for whole numbers declare profiles that do not go with one another, though both
say the same of numbers; and a header that declares no profile at all, for its byte order is unknown, is
that of another machine. -/
theorem openChunk_header_integral :
    (∃ q q', Profile.ofHeader (Profile.header ⟨.little, .four, .eight, 8, 1⟩) = .ok q ∧
      Profile.ofHeader (Profile.header ⟨.little, .four, .eight, 8, 2⟩) = .ok q' ∧
      q.usesFloat = q'.usesFloat ∧ q.isCompatible q' = false) ∧
    ∃ data fault, Profile.ofHeader data = .error (.endiannessFlag 2) ∧
      (Session.run (openChunk data (some ⟨.little, .four, .eight, 8, 0⟩)) ⟨false, false, none⟩ {}).1 =
        .error fault ∧
      fault.category = .hostMismatch := by
  constructor
  · obtain ⟨_, _, _, _, hq, hcompatible, _⟩ := openChunk_header ⟨.little, .four, .eight, 8, 1⟩
      (Profile.header ⟨.little, .four, .eight, 8, 1⟩) ⟨false, false, none⟩ {}
    obtain ⟨_, _, _, _, hq', _⟩ := openChunk_header ⟨.little, .four, .eight, 8, 2⟩ []
      ⟨false, false, none⟩ {}
    refine ⟨_, _, hq, hq', rfl, ?_⟩
    rw [← Bool.not_eq_true, (hcompatible _ _ _ hq hq').2]
    decide
  · have hunknown : Profile.ofHeader (Profile.signature ++ [2, 4, 8, 4, 8, 0] ++ Profile.tailMark) =
        .error (.endiannessFlag 2) := rfl
    obtain ⟨_, _, hmachine, _⟩ := openChunk_header ⟨.little, .four, .eight, 8, 0⟩
      (Profile.signature ++ [2, 4, 8, 4, 8, 0] ++ Profile.tailMark) ⟨false, false, none⟩ {}
    obtain ⟨fault, hrun, hcategory⟩ := hmachine.mpr ⟨by decide, .inl ⟨_, hunknown⟩⟩
    exact ⟨_, fault, hunknown, hrun, hcategory⟩

end Chunk
end LuaBytecode
