import LuaBytecode.Chunk
import LuaBytecode.Proofs.Profile
import LuaBytecode.Proofs.WordArray
import Mathlib.Tactic.Ring

/-! The format of chunks: the bytes that are accepted are exactly the images of valid chunks, and
writing a valid chunk gives its image. -/
namespace LuaBytecode

namespace Prologue

/-- Both line numbers fit the integers of the profile. -/
structure Fits (p : Profile) (f : Prologue) : Prop where
  line_lt : f.lineDefined < 256 ^ p.intWidth.bytes
  lastLine_lt : f.lastLineDefined < 256 ^ p.intWidth.bytes

theorem length_header_bytes (p : Profile) (f : Prologue) :
    (p.header ++ f.bytes p).length = p.countOffset := by
  simp only [bytes, List.length_append, Profile.length_header, Unsigned.length_encode,
    List.length_cons, List.length_nil, Profile.countOffset]
  omega

theorem read?_eq_some_iff {p : Profile} {f : Prologue} {data back : Bytes} :
    read? p data = some (f, back) ↔ f.Fits p ∧ data = f.bytes p ++ back := by
  constructor
  · intro h
    obtain ⟨⟨line, data₁⟩, hline, hbody⟩ := Option.bind_eq_some_iff.mp h
    obtain ⟨⟨lastLine, data₂⟩, hlast, hflags⟩ := Option.bind_eq_some_iff.mp hbody
    obtain ⟨hlt, hdata⟩ := Unsigned.read?_eq_some_iff.mp hline
    obtain ⟨hlt', hdata₁⟩ := Unsigned.read?_eq_some_iff.mp hlast
    rw [hdata, hdata₁]
    dsimp only at hflags
    split at hflags
    · cases hflags
      refine ⟨⟨hlt, hlt'⟩, ?_⟩
      simp [bytes]
    · cases hflags
  · rintro ⟨hf, rfl⟩
    simp only [bytes, List.append_assoc, read?, Option.bind_eq_bind]
    rw [Unsigned.read?_encode_append p.order hf.line_lt, Option.bind_some,
      Unsigned.read?_encode_append p.order hf.lastLine_lt, Option.bind_some]
    rfl

end Prologue

namespace Chunk

theorem readWords?_eq_some_iff {order : ByteOrder} {count : Nat} {data back : Bytes}
    {words : List Nat} :
    readWords? order count data = some (words, back) ↔
      words.length = count ∧ (∀ w ∈ words, w < Word.bound) ∧
        data = words.flatMap (Unsigned.encode order Word.size) ++ back := by
  induction count generalizing data words with
  | zero =>
    rw [readWords?, List.length_eq_zero_iff, Option.some_inj, Prod.mk.injEq]
    constructor
    · rintro ⟨rfl, rfl⟩
      exact ⟨rfl, by simp, rfl⟩
    · rintro ⟨rfl, _, rfl⟩
      exact ⟨rfl, rfl⟩
  | succ count ih =>
    constructor
    · intro h
      obtain ⟨⟨word, data₁⟩, hword, h⟩ := Option.bind_eq_some_iff.mp h
      obtain ⟨⟨words', data₂⟩, hwords, h⟩ := Option.bind_eq_some_iff.mp h
      cases h
      obtain ⟨hlt, rfl⟩ := Unsigned.read?_eq_some_iff.mp hword
      obtain ⟨hlen, hall, rfl⟩ := ih.mp hwords
      refine ⟨by rw [List.length_cons, hlen], ?_, by simp⟩
      rw [List.forall_mem_cons, Word.bound_eq]
      exact ⟨hlt, Word.bound_eq ▸ hall⟩
    · rintro ⟨hlen, hall, rfl⟩
      cases words with
      | nil => cases hlen
      | cons word words =>
        rw [List.forall_mem_cons] at hall
        have hword : word < 256 ^ Word.size := Word.bound_eq ▸ hall.1
        have hwords := ih.mpr ⟨Nat.succ.inj hlen, hall.2, rfl⟩
        rw [List.flatMap_cons, List.append_assoc, readWords?,
          Unsigned.read?_encode_append order hword, Option.bind_eq_bind, Option.bind_some]
        dsimp only
        rw [hwords]
        rfl

/-- What is true of every chunk that was read under a profile, and stays true while its code is
edited. -/
structure Valid (p : Profile) (c : Chunk) : Prop where
  profile_eq : c.profile = p
  prologue_fits : c.prologue.Fits p
  code_valid : c.code.Valid
  limit_eq : c.code.limit = some (p.maxCount : Int)

/-- The bytes of a chunk as the format lays them out. -/
def image (c : Chunk) : Bytes :=
  c.profile.header ++ c.prologue.bytes c.profile ++
    Unsigned.encode c.profile.order c.profile.intWidth.bytes c.code.size ++
    c.code.words.flatMap (Unsigned.encode c.profile.order Word.size) ++ c.rest

theorem Valid.size_le {p : Profile} {c : Chunk} (hc : c.Valid p) : c.code.size ≤ p.maxCount := by
  have h := hc.code_valid.size_le _ hc.limit_eq
  exact_mod_cast h

theorem Valid.size_lt {p : Profile} {c : Chunk} (hc : c.Valid p) :
    c.code.size < 256 ^ p.intWidth.bytes := hc.size_le.trans_lt p.maxCount_lt

theorem readBody_eq_ok_iff {p : Profile} {size : Nat} {data : Bytes} {c : Chunk} :
    readBody p size data = .ok c ↔ c.Valid p ∧ p.header ++ data = c.image := by
  constructor
  · intro h
    rw [readBody] at h
    split at h
    · cases h
    rename_i prologue data₁ hprologue
    split at h
    · cases h
    rename_i count data₂ hcount
    split at h
    · cases h
    rename_i hle
    split at h
    · cases h
    rename_i words rest hwords
    cases h
    obtain ⟨hfits, rfl⟩ := Prologue.read?_eq_some_iff.mp hprologue
    obtain ⟨_, rfl⟩ := Unsigned.read?_eq_some_iff.mp hcount
    obtain ⟨hlen, hall, rfl⟩ := readWords?_eq_some_iff.mp hwords
    refine ⟨⟨rfl, hfits, ⟨hall, ?_⟩, rfl⟩, ?_⟩
    · intro limit hlimit
      cases hlimit
      simp only [WordArray.size, hlen]
      omega
    · simp [image, WordArray.size, hlen]
  · rintro ⟨hc, hdata⟩
    have hcount := hc.size_lt
    have hle := hc.size_le
    obtain ⟨q, prologue, ⟨words, limit⟩, rest⟩ := c
    obtain ⟨rfl, hfits, hcode, hlimit⟩ := hc
    dsimp only at hlimit
    subst hlimit
    have hwords : readWords? q.order words.length
        (words.flatMap (Unsigned.encode q.order Word.size) ++ rest) = some (words, rest) :=
      readWords?_eq_some_iff.mpr ⟨rfl, hcode.lt_bound, rfl⟩
    simp only [image, List.append_assoc, List.append_cancel_left_eq] at hdata
    rw [hdata, readBody, Prologue.read?_eq_some_iff.mpr ⟨hfits, rfl⟩]
    dsimp only
    rw [Unsigned.read?_encode_append q.order hcount]
    dsimp only
    rw [if_neg (Nat.not_lt.mpr hle), WordArray.size, hwords]

/-- A chunk is accepted exactly if it is the image of a valid chunk, which is then the result. -/
theorem parse_eq_ok_iff {p : Profile} {data : Bytes} {c : Chunk} :
    parse p data = .ok c ↔ c.Valid p ∧ data = c.image := by
  constructor
  · intro h
    rw [parse] at h
    split at h
    · cases h
    split at h
    · cases h
    rename_i hheader
    have hsplit := List.take_append_drop Profile.headerSize data
    rw [not_not.mp hheader] at hsplit
    rw [← hsplit]
    exact readBody_eq_ok_iff.mp h
  · rintro ⟨hc, rfl⟩
    have himage : c.image = p.header ++ c.image.drop Profile.headerSize := by
      simp [image, hc.profile_eq, List.drop_append]
    have hmarks : Profile.hasMarks c.image = true := himage ▸ p.hasMarks_header_append _
    have htake : c.image.take Profile.headerSize = p.header := by
      rw [himage, List.take_left' p.length_header]
    rw [parse, hmarks, htake]
    simp only [Bool.not_true, Bool.false_eq_true, if_false, ne_eq, not_true_eq_false]
    exact readBody_eq_ok_iff.mpr ⟨hc, himage.symm⟩

private theorem codeBytes_eq {p : Profile} {words : List Nat} (h : ∀ w ∈ words, w < Word.bound) :
    codeBytes p words = .ok (words.flatMap (Unsigned.encode p.order Word.size)) := by
  induction words with
  | nil => rfl
  | cons word words ih =>
    rw [List.forall_mem_cons] at h
    rw [codeBytes, p.wordBytes_eq h.1, ih h.2]
    rfl

/-- A valid chunk can always be written: neither its count nor a word is too great. -/
theorem serialize_eq {p : Profile} {c : Chunk} (hc : c.Valid p) : c.serialize = .ok c.image := by
  have hsize := hc.size_lt
  rw [← hc.profile_eq] at hsize
  rw [serialize, Unsigned.encode?_natCast hsize, codeBytes_eq hc.code_valid.lt_bound]
  rfl

/-- Valid chunks of one profile are told apart by their bytes. -/
theorem eq_of_image_eq {p : Profile} {c d : Chunk} (hc : c.Valid p) (hd : d.Valid p)
    (h : c.image = d.image) : c = d := by
  have hparse := parse_eq_ok_iff.mpr ⟨hc, rfl⟩
  rw [h, parse_eq_ok_iff.mpr ⟨hd, rfl⟩] at hparse
  exact (Except.ok.inj hparse).symm

theorem length_flatMap_encode (order : ByteOrder) (words : List Nat) :
    (words.flatMap (Unsigned.encode order Word.size)).length = Word.size * words.length := by
  induction words with
  | nil => rfl
  | cons word words ih =>
    rw [List.flatMap_cons, List.length_append, Unsigned.length_encode, ih, List.length_cons]
    ring

theorem take_image {p : Profile} {c : Chunk} (hc : c.Valid p) :
    c.image.take p.countOffset = p.header ++ c.prologue.bytes p := by
  simp only [image, hc.profile_eq, List.append_assoc]
  rw [← List.append_assoc, List.take_left' (Prologue.length_header_bytes p c.prologue)]

theorem drop_image {p : Profile} {c : Chunk} (hc : c.Valid p) :
    c.image.drop (p.codeOffset + Word.size * c.code.size) = c.rest := by
  rw [image, hc.profile_eq]
  apply List.drop_left'
  rw [List.length_append, List.length_append, Prologue.length_header_bytes, Unsigned.length_encode,
    length_flatMap_encode]
  rfl

theorem length_image {p : Profile} {c : Chunk} (hc : c.Valid p) :
    c.image.length = p.codeOffset + Word.size * c.code.size + c.rest.length := by
  rw [image, hc.profile_eq, List.length_append, List.length_append, List.length_append,
    Prologue.length_header_bytes, Unsigned.length_encode, length_flatMap_encode]
  rfl

end Chunk
end LuaBytecode
