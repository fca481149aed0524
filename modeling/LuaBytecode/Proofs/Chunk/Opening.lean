import LuaBytecode.Proofs.Chunk.Format
import LuaBytecode.Proofs.Session.Chunks

/-! Opening chunks: bytes are accepted exactly if they are the parts of a chunk in a row, which they then
are in one way only; what is wrong with other bytes is told by lengths and offsets alone. -/
namespace LuaBytecode

namespace Prologue

/-- A prologue can be read from any bytes that are long enough. -/
theorem exists_read? {p : Profile} {data : Bytes} (h : 2 * p.intWidth.bytes + 3 ≤ data.length) :
    ∃ f back, read? p data = some (f, back) := by
  have hline : p.intWidth.bytes ≤ data.length := by omega
  have hlast : p.intWidth.bytes ≤ (data.drop p.intWidth.bytes).length := by
    rw [List.length_drop]
    omega
  have hflags : 3 ≤ ((data.drop p.intWidth.bytes).drop p.intWidth.bytes).length := by
    rw [List.length_drop, List.length_drop]
    omega
  simp only [read?, Unsigned.read?_eq, Option.bind_eq_bind, if_pos hline, if_pos hlast,
    Option.bind_some]
  generalize (data.drop p.intWidth.bytes).drop p.intWidth.bytes = flags at hflags
  rcases flags with _ | ⟨params, _ | ⟨vararg, _ | ⟨stack, back⟩⟩⟩
  · simp at hflags
  · simp at hflags
  · simp at hflags
  · exact ⟨_, back, rfl⟩

end Prologue

namespace Chunk
open Outcome (fault?)
open Session (openChunk)

private theorem readWords?_eq_none_iff {order : ByteOrder} {count : Nat} {data : Bytes} :
    readWords? order count data = none ↔ data.length < count * Word.size := by
  induction count generalizing data with
  | zero => simp [readWords?]
  | succ count ih =>
    rw [readWords?, Unsigned.read?_eq, Option.bind_eq_bind, Nat.succ_mul]
    by_cases hword : Word.size ≤ data.length
    · rw [if_pos hword, Option.bind_some]
      dsimp only
      have ih := @ih (data.drop Word.size)
      rw [List.length_drop] at ih
      rw [Option.bind_eq_bind, Option.bind_eq_none_iff]
      constructor
      · intro h
        have hnone : readWords? order count (data.drop Word.size) = none := by
          rw [Option.eq_none_iff_forall_ne_some]
          intro pair hpair
          cases h pair hpair
        have := ih.mp hnone
        omega
      · intro h pair hpair
        rw [ih.mpr (by omega)] at hpair
        cases hpair
    · rw [if_neg hword]
      simp only [Option.bind_none, true_iff]
      omega

/-- Bytes too short to hold a count hold no chunk. -/
theorem readBody_of_short {p : Profile} {body : Bytes}
    (h : Profile.headerSize + body.length < p.codeOffset) (size : Nat) :
    readBody p size body = .error .countMissing := by
  rw [readBody]
  split
  · rfl
  rename_i f back hprologue
  split
  · rfl
  rename_i count rest hcount
  -- both parts were read, so the bytes are longer than they are
  obtain ⟨_, rfl⟩ := Prologue.read?_eq_some_iff.mp hprologue
  obtain ⟨_, rfl⟩ := Unsigned.read?_eq_some_iff.mp hcount
  have hfront := Prologue.length_header_bytes p f
  simp only [List.length_append, p.length_header, Unsigned.length_encode,
    Profile.codeOffset] at h hfront
  omega

/-- Longer bytes hold a prologue and a count, whatever they are. -/
theorem exists_front {p : Profile} {body : Bytes}
    (h : p.codeOffset ≤ Profile.headerSize + body.length) :
    ∃ (f : Prologue) (count : Nat) (rest : Bytes), f.Fits p ∧ count < 256 ^ p.intWidth.bytes ∧
      body = f.bytes p ++ (Unsigned.encode p.order p.intWidth.bytes count ++ rest) := by
  simp only [Profile.codeOffset, Profile.countOffset] at h
  have hlong : 2 * p.intWidth.bytes + 3 ≤ body.length := by omega
  obtain ⟨f, back, hprologue⟩ := Prologue.exists_read? hlong
  obtain ⟨hfits, rfl⟩ := Prologue.read?_eq_some_iff.mp hprologue
  have hfront := Prologue.length_header_bytes p f
  have hroom : p.intWidth.bytes ≤ back.length := by
    simp only [List.length_append, p.length_header, Profile.countOffset] at h hfront
    omega
  have hcount := Unsigned.read?_eq p.order p.intWidth.bytes back
  rw [if_pos hroom] at hcount
  obtain ⟨hlt, hback⟩ := Unsigned.read?_eq_some_iff.mp hcount
  exact ⟨f, _, _, hfits, hlt, congrArg (f.bytes p ++ ·) hback⟩

/-- After the prologue and the count only the limit and the room for the words matter. -/
theorem readBody_append {p : Profile} {f : Prologue} {count : Nat} (hf : f.Fits p)
    (hcount : count < 256 ^ p.intWidth.bytes) (size : Nat) (rest : Bytes) :
    readBody p size (f.bytes p ++ (Unsigned.encode p.order p.intWidth.bytes count ++ rest)) =
      if count > p.maxCount then .error (.countInvalid count)
      else match readWords? p.order count rest with
        | none => .error (.codeTruncated count (p.codeOffset + count * Word.size) size)
        | some (words, rest) => .ok ⟨p, f, ⟨words, some p.maxCount⟩, rest⟩ := by
  have hprologue (back : Bytes) : Prologue.read? p (f.bytes p ++ back) = some (f, back) :=
    Prologue.read?_eq_some_iff.mpr ⟨hf, rfl⟩
  have hread := Unsigned.read?_encode_append p.order hcount rest
  by_cases hmax : count > p.maxCount
  · simp only [readBody, hprologue, hread, if_pos hmax]
  · cases hwords : readWords? p.order count rest <;>
      simp only [readBody, hprologue, hread, if_neg hmax, hwords]

/-- There is room for the words if the bytes of the chunk reach to their end. -/
theorem readWords?_rest_eq_none_iff {p : Profile} {f : Prologue} {count : Nat} {rest data : Bytes}
    (hdata : p.header ++ (f.bytes p ++ (Unsigned.encode p.order p.intWidth.bytes count ++ rest)) = data) :
    readWords? p.order count rest = none ↔ data.length < p.codeOffset + count * Word.size := by
  have hfront := Prologue.length_header_bytes p f
  rw [readWords?_eq_none_iff, ← hdata, Profile.codeOffset]
  simp only [List.length_append, Unsigned.length_encode] at hfront ⊢
  omega

/-- The count of words that the bytes of a chunk give. -/
def countAt (p : Profile) (data : Bytes) : Nat :=
  Unsigned.decode p.order ((data.drop p.countOffset).take p.intWidth.bytes)

private theorem countAt_append {p : Profile} {f : Prologue} {count : Nat}
    (hcount : count < 256 ^ p.intWidth.bytes) (rest : Bytes) :
    countAt p (p.header ++ (f.bytes p ++ (Unsigned.encode p.order p.intWidth.bytes count ++ rest))) =
      count := by
  rw [countAt, ← List.append_assoc, List.drop_left' (Prologue.length_header_bytes p f),
    List.take_left' (Unsigned.length_encode ..), Unsigned.decode_encode p.order hcount]

/-- What is wrong with bytes that start with the header of a profile: there is no room for the count,
the count is too great, or there is no room for the words. -/
def bodyDefect? (p : Profile) (data : Bytes) : Option Fault :=
  let codeEnd := p.codeOffset + countAt p data * Word.size
  if data.length < p.codeOffset then some .countMissing
  else if p.maxCount < countAt p data then some (.countInvalid (countAt p data))
  else if data.length < codeEnd then some (.codeTruncated (countAt p data) codeEnd data.length)
  else none

/-- Reading part by part goes wrong where the lengths and offsets say. -/
theorem fault?_readBody {p : Profile} {body data : Bytes} (hdata : p.header ++ body = data) :
    fault? (readBody p data.length body) = bodyDefect? p data := by
  have hlength : data.length = Profile.headerSize + body.length := by
    rw [← hdata, List.length_append, p.length_header]
  by_cases hshort : data.length < p.codeOffset
  · rw [readBody_of_short (hlength ▸ hshort), bodyDefect?, if_pos hshort]
    rfl
  · have hroom : p.codeOffset ≤ Profile.headerSize + body.length := by omega
    obtain ⟨f, count, rest, hf, hcount, rfl⟩ := exists_front hroom
    have hat : countAt p data = count := by
      rw [← hdata, countAt_append hcount]
    rw [readBody_append hf hcount, bodyDefect?, hat, if_neg hshort]
    by_cases hmax : p.maxCount < count
    · rw [if_pos hmax, if_pos hmax]
      rfl
    · rw [if_neg hmax, if_neg hmax, ← if_congr (readWords?_rest_eq_none_iff hdata) rfl rfl]
      cases readWords? p.order count rest <;> rfl

/-- What is wrong with bytes as a chunk of a profile: they carry no marks of a chunk, their header is
another one, or what follows the header is wrong. -/
def defect? (p : Profile) (data : Bytes) : Option Fault :=
  if !Profile.hasMarks data then some .notChunk
  else if data.take Profile.headerSize ≠ p.header then some .otherMachine
  else bodyDefect? p data

theorem parse_eq_error_iff {p : Profile} {data : Bytes} {fault : Fault} :
    parse p data = .error fault ↔ defect? p data = some fault := by
  rw [← Outcome.fault?_eq_some_iff, parse, defect?]
  split_ifs with hmarks hheader
  · rfl
  · rfl
  · have hsplit := List.take_append_drop Profile.headerSize data
    rw [not_not.mp hheader] at hsplit
    rw [fault?_readBody hsplit]

/-- Only a header that is well formed but not the profile's own belongs to another machine; all else
that can be wrong is wrong with the format. -/
theorem category_of_defect? {p : Profile} {data : Bytes} {fault : Fault}
    (h : defect? p data = some fault) :
    fault.category =
      if Profile.hasMarks data = true ∧ data.take Profile.headerSize ≠ p.header then .hostMismatch
      else .formatMismatch := by
  rw [defect?] at h
  split_ifs at h with hmarks hheader
  · cases h
    rw [Bool.not_eq_true'] at hmarks
    rw [if_neg fun hother => Bool.noConfusion (hmarks.symm.trans hother.1)]
    rfl
  · cases h
    rw [Bool.not_eq_true', Bool.not_eq_false] at hmarks
    rw [if_pos ⟨hmarks, hheader⟩]
    rfl
  · rw [if_neg fun hother => hheader hother.2]
    rw [bodyDefect?] at h
    split_ifs at h <;> cases h <;> rfl

/-- What a chunk is made of, apart from its header and the count of its words. -/
structure Parts where
  line : Nat
  lastLine : Nat
  params : UInt8
  vararg : UInt8
  stack : UInt8
  words : List Nat
  tail : Bytes

namespace Parts

/-- The parts fit a profile and make up these bytes, with the count of the words before the words. -/
structure MakeUp (parts : Parts) (p : Profile) (data : Bytes) : Prop where
  line_lt : parts.line < 256 ^ p.intWidth.bytes
  lastLine_lt : parts.lastLine < 256 ^ p.intWidth.bytes
  count_le : parts.words.length ≤ 2 ^ (8 * p.intWidth.bytes - 1) - 1
  words_lt : ∀ w ∈ parts.words, w < 2 ^ 32
  data_eq : data = p.header ++
    Unsigned.encode p.order p.intWidth.bytes parts.line ++
    Unsigned.encode p.order p.intWidth.bytes parts.lastLine ++
    [parts.params, parts.vararg, parts.stack] ++
    Unsigned.encode p.order p.intWidth.bytes parts.words.length ++
    parts.words.flatMap (Unsigned.encode p.order 4) ++ parts.tail

/-- The chunk of a profile with these parts. -/
def chunk (parts : Parts) (p : Profile) : Chunk :=
  ⟨p, ⟨parts.line, parts.lastLine, parts.params, parts.vararg, parts.stack⟩,
    ⟨parts.words, some p.maxCount⟩, parts.tail⟩

theorem chunk_injective (p : Profile) : Function.Injective (chunk · p) := by
  rintro ⟨⟩ ⟨⟩ h
  simp only [chunk, Chunk.mk.injEq, Prologue.mk.injEq, WordArray.mk.injEq, true_and, and_true] at h
  obtain ⟨⟨rfl, rfl, rfl, rfl, rfl⟩, rfl, rfl⟩ := h
  rfl

theorem makeUp_iff {parts : Parts} {p : Profile} {data : Bytes} :
    parts.MakeUp p data ↔ parse p data = .ok (parts.chunk p) := by
  have hmax : p.maxCount = 2 ^ (8 * p.intWidth.bytes - 1) - 1 := Bits.mask_eq _
  have himage : (parts.chunk p).image = p.header ++
      Unsigned.encode p.order p.intWidth.bytes parts.line ++
      Unsigned.encode p.order p.intWidth.bytes parts.lastLine ++
      [parts.params, parts.vararg, parts.stack] ++
      Unsigned.encode p.order p.intWidth.bytes parts.words.length ++
      parts.words.flatMap (Unsigned.encode p.order 4) ++ parts.tail := by
    simp only [image, chunk, Prologue.bytes, List.append_assoc]
    rfl
  rw [parse_eq_ok_iff, himage]
  constructor
  · rintro ⟨hline, hlast, hcount, hwords, hdata⟩
    refine ⟨⟨rfl, ⟨hline, hlast⟩, ⟨hwords, ?_⟩, rfl⟩, hdata⟩
    intro limit hlimit
    cases hlimit
    rw [hmax]
    exact Int.ofNat_le.mpr hcount
  · rintro ⟨hvalid, hdata⟩
    have hfits := hvalid.prologue_fits
    exact ⟨hfits.line_lt, hfits.lastLine_lt, hmax ▸ hvalid.size_le, hvalid.code_valid.lt_bound, hdata⟩

theorem exists_of_parse {p : Profile} {data : Bytes} {c : Chunk} (h : parse p data = .ok c) :
    ∃ parts : Parts, c = parts.chunk p := by
  obtain ⟨hc, _⟩ := parse_eq_ok_iff.mp h
  have hprofile := hc.profile_eq
  have hlimit := hc.limit_eq
  obtain ⟨q, ⟨line, lastLine, params, vararg, stack⟩, ⟨words, limit⟩, tail⟩ := c
  dsimp only at hprofile hlimit
  subst hprofile hlimit
  exact ⟨⟨line, lastLine, params, vararg, stack, words, tail⟩, rfl⟩

end Parts

/-- Bytes are opened as a chunk exactly if parts of a chunk make them up. The parts are then the only
ones, and the chunk has these words and this prologue. Otherwise opening gives the fault that the
lengths and offsets tell, which is about the machine if the header is well formed but not that of the
profile, and about the format in every other case. -/
theorem openChunk_parts (data : Bytes) (p : Profile) (t : Settings) (s : Session) :
    ((∃ c s₁, Session.run (openChunk data (some p)) t s = (.ok c, s₁)) ↔
      ∃ parts : Parts, parts.MakeUp p data) ∧
    (∀ parts parts' : Parts, parts.MakeUp p data → parts'.MakeUp p data → parts = parts') ∧
    (∀ c s₁, ∀ parts : Parts, Session.run (openChunk data (some p)) t s = (.ok c, s₁) →
      parts.MakeUp p data →
      c.code.words = parts.words ∧
      c.prologue.lineDefined = parts.line ∧ c.prologue.lastLineDefined = parts.lastLine ∧
      c.prologue.paramCount = parts.params ∧ c.prologue.isVararg = decide (0 < parts.vararg) ∧
      c.prologue.maxStack = parts.stack) ∧
    ((¬ ∃ parts : Parts, parts.MakeUp p data) →
      ∃ fault, Session.run (openChunk data (some p)) t s = (.error fault, s) ∧
        defect? p data = some fault ∧
        fault.category =
          if (18 ≤ data.length ∧ data.take 6 = Profile.signature ∧
              (data.drop 12).take 6 = Profile.tailMark) ∧ data.take 18 ≠ p.header then .hostMismatch
          else .formatMismatch) := by
  refine ⟨⟨?_, ?_⟩, ?_, ?_, ?_⟩
  · rintro ⟨c, s₁, hopen⟩
    have hparse := Session.parse_of_openChunk hopen
    obtain ⟨parts, rfl⟩ := Parts.exists_of_parse hparse
    exact ⟨parts, Parts.makeUp_iff.mpr hparse⟩
  · rintro ⟨parts, hparts⟩
    exact ⟨_, _, Session.run_openChunk_ok (Parts.makeUp_iff.mp hparts) t s⟩
  · intro parts parts' hparts hparts'
    have hparse := Parts.makeUp_iff.mp hparts
    rw [Parts.makeUp_iff.mp hparts'] at hparse
    exact (Parts.chunk_injective p (Except.ok.inj hparse)).symm
  · intro c s₁ parts hopen hparts
    have hparse := Session.parse_of_openChunk hopen
    rw [Parts.makeUp_iff.mp hparts] at hparse
    cases hparse
    exact ⟨rfl, rfl, rfl, rfl, rfl, rfl⟩
  · intro hnone
    cases hparse : parse p data with
    | ok c =>
      obtain ⟨parts, rfl⟩ := Parts.exists_of_parse hparse
      exact absurd ⟨parts, Parts.makeUp_iff.mpr hparse⟩ hnone
    | error fault =>
      have hdefect := parse_eq_error_iff.mp hparse
      refine ⟨fault, ?_, hdefect, ?_⟩
      · rw [Session.run_openChunk, hparse]
      · simp only [category_of_defect? hdefect, Profile.hasMarks_iff, Profile.headerSize]

/-- The reference chunk is one of its own machine and of no other, and it is no chunk without its last
word. -/
theorem openChunk_parts_reference :
    (∃ parts : Parts, parts.MakeUp ⟨.little, .four, .eight, 8, 0⟩ Profile.referenceChunk ∧
      parts.words = [0x80001f]) ∧
    (∃ fault, Session.run (openChunk (Profile.referenceChunk.take 36)
        (some ⟨.little, .four, .eight, 8, 0⟩)) ⟨false, false, none⟩ {} = (.error fault, {}) ∧
      fault.category = .formatMismatch) ∧
    ∃ fault, Session.run (openChunk Profile.referenceChunk
        (some ⟨.big, .four, .eight, 8, 0⟩)) ⟨false, false, none⟩ {} = (.error fault, {}) ∧
      fault.category = .hostMismatch := by
  have hrefused {data : Bytes} {p : Profile} {fault : Fault}
      (h : Session.run (openChunk data (some p)) ⟨false, false, none⟩ {} = (.error fault, {})) :
      ¬ ∃ parts : Parts, parts.MakeUp p data := by
    intro hparts
    obtain ⟨c, s₁, hopen⟩ := (openChunk_parts data p ⟨false, false, none⟩ {}).1.mpr hparts
    rw [h] at hopen
    cases hopen
  refine ⟨?_, ?_, ?_⟩
  · have hopen : Session.run (openChunk Profile.referenceChunk
        (some ⟨.little, .four, .eight, 8, 0⟩)) ⟨false, false, none⟩ {} = (.ok _, _) := rfl
    obtain ⟨hiff, _, hview, _⟩ := openChunk_parts Profile.referenceChunk
      ⟨.little, .four, .eight, 8, 0⟩ ⟨false, false, none⟩ {}
    obtain ⟨parts, hparts⟩ := hiff.mp ⟨_, _, hopen⟩
    exact ⟨parts, hparts, (hview _ _ parts hopen hparts).1.symm⟩
  · obtain ⟨fault, hopen, _, hcategory⟩ := (openChunk_parts (Profile.referenceChunk.take 36)
      ⟨.little, .four, .eight, 8, 0⟩ ⟨false, false, none⟩ {}).2.2.2 (hrefused rfl)
    exact ⟨fault, hopen, hcategory⟩
  · obtain ⟨fault, hopen, _, hcategory⟩ := (openChunk_parts Profile.referenceChunk
      ⟨.big, .four, .eight, 8, 0⟩ ⟨false, false, none⟩ {}).2.2.2 (hrefused rfl)
    exact ⟨fault, hopen, hcategory⟩

end Chunk
end LuaBytecode
