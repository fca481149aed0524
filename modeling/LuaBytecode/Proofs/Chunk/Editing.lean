import LuaBytecode.Proofs.Chunk.Format
import LuaBytecode.Proofs.Session.Chunks

/-! Editing an open chunk: whatever steps are asked of its words, the chunk can be written, only the
count and the words differ from what was read, and reopening what was written changes nothing. -/
namespace LuaBytecode.Chunk
open Session (openChunk)

/-- No run of steps takes a chunk out of the format it was read in. -/
theorem Valid.edit {p : Profile} {c : Chunk} (hc : c.Valid p) (steps : List WordArray.Step) :
    ({ c with code := (c.code.run steps).2 } : Chunk).Valid p := by
  obtain ⟨hvalid, hlimit⟩ := hc.code_valid.run steps
  exact ⟨hc.profile_eq, hc.prologue_fits, hvalid, hlimit.trans hc.limit_eq⟩

/-- After any steps the chunk is written as the bytes that were read, with the new count and the new
words in place of the old. The count and the words always fit, and the bytes are those that were
read exactly if the words are. -/
theorem serialize_after_edit {p : Profile} {data : Bytes} {c : Chunk} {t : Settings}
    {s s₁ : Session} (hopen : Session.run (openChunk data (some p)) t s = (.ok c, s₁))
    (steps : List WordArray.Step) :
    ∃ outcomes c' bytes s₂,
      Session.run (c.edit steps) t s₁ = (.ok (outcomes, c'), s₁) ∧
      Session.run (Session.serialize c') t s₁ = (.ok bytes, s₂) ∧
      c'.code.words.length ≤ p.maxCount ∧ (∀ w ∈ c'.code.words, w < 2 ^ 32) ∧
      bytes = data.take p.countOffset ++
        Unsigned.encode p.order p.intWidth.bytes c'.code.words.length ++
        c'.code.words.flatMap (Unsigned.encode p.order 4) ++
        data.drop (p.codeOffset + 4 * c.code.words.length) ∧
      (bytes.length : Int) =
        data.length + 4 * ((c'.code.words.length : Int) - c.code.words.length) ∧
      (bytes = data ↔ c'.code.words = c.code.words) := by
  obtain ⟨hc, rfl⟩ := parse_eq_ok_iff.mp (Session.parse_of_openChunk hopen)
  have hd := hc.edit steps
  have hlimit := (hc.code_valid.run steps).2
  refine ⟨_, _, _, _, run_edit c steps t s₁, Session.run_serialize_ok (serialize_eq hd) t s₁,
    hd.size_le, hd.code_valid.lt_bound, ?_, ?_, ?_⟩
  · have hrest : c.image.drop (p.codeOffset + 4 * c.code.words.length) = c.rest := drop_image hc
    rw [take_image hc, hrest, image, hd.profile_eq]
    rfl
  · rw [length_image hd, length_image hc]
    push_cast [Word.size, WordArray.size]
    ring
  · constructor
    · intro h
      exact congrArg (·.code.words) (eq_of_image_eq hd hc h)
    · intro h
      -- the limit never changes, so equal words make equal chunks
      have hcode : (c.code.run steps).2 = c.code := WordArray.eq_of_words_eq h hlimit
      rw [hcode]

/-- A word is added at the end of the only word of the reference chunk, after a step that fails. -/
theorem serialize_after_edit_reference :
    ∃ c s₁ outcomes c' s₂,
      Session.run (openChunk Profile.referenceChunk (some ⟨.little, .four, .eight, 8, 0⟩))
        ⟨false, false, none⟩ {} = (.ok c, s₁) ∧
      Session.run (c.edit [.append (.bool true), .append (.int 0x800026)]) ⟨false, false, none⟩ s₁ =
        (.ok (outcomes, c'), s₁) ∧
      c'.code.words = [0x80001f, 0x800026] ∧
      Session.run (Session.serialize c') ⟨false, false, none⟩ s₁ =
        (.ok (Profile.referenceChunk.take 29 ++
          [2, 0, 0, 0, 0x1f, 0, 0x80, 0, 0x26, 0, 0x80, 0] ++ Profile.referenceChunk.drop 37), s₂) := by
  have hopen : Session.run (openChunk Profile.referenceChunk (some ⟨.little, .four, .eight, 8, 0⟩))
      ⟨false, false, none⟩ {} = (.ok _, _) := rfl
  obtain ⟨outcomes, c', bytes, s₂, hedit, hwrite, _, _, hbytes, _⟩ :=
    serialize_after_edit hopen [.append (.bool true), .append (.int 0x800026)]
  refine ⟨_, _, outcomes, c', s₂, hopen, hedit, ?_, ?_⟩
  · cases hedit
    rfl
  · rw [hwrite, hbytes]
    cases hedit
    rfl

/-- Writing a chunk and reading it back can be put between any steps without being noticed. What is
read back has the words, the limit, the prologue and the constants of the chunk that was written,
and answers all further steps in the same way. The prologue and the constants are still those of
the chunk as it was first opened. -/
theorem reopen_after_edit {p : Profile} {data : Bytes} {c : Chunk} {t : Settings} {s s₁ : Session}
    (hopen : Session.run (openChunk data (some p)) t s = (.ok c, s₁))
    (before : List WordArray.Step) :
    ∃ outcomes d bytes r s₂ s₃,
      Session.run (c.edit before) t s₁ = (.ok (outcomes, d), s₁) ∧
      Session.run (Session.serialize d) t s₁ = (.ok bytes, s₂) ∧
      Session.run (openChunk bytes (some p)) t s₂ = (.ok r, s₃) ∧
      r.code.words = d.code.words ∧ r.code.limit = d.code.limit ∧
      r.prologue = d.prologue ∧ r.constants = d.constants ∧
      d.prologue = c.prologue ∧ d.constants = c.constants ∧
      ∀ after : List WordArray.Step, ∃ outcomes' d' r' bytes' s₄,
        Session.run (d.edit after) t s₃ = (.ok (outcomes', d'), s₃) ∧
        Session.run (r.edit after) t s₃ = (.ok (outcomes', r'), s₃) ∧
        Session.run (Session.serialize d') t s₃ = (.ok bytes', s₄) ∧
        Session.run (Session.serialize r') t s₃ = (.ok bytes', s₄) := by
  obtain ⟨hc, rfl⟩ := parse_eq_ok_iff.mp (Session.parse_of_openChunk hopen)
  have hd := hc.edit before
  have hwrite := Session.run_serialize_ok (serialize_eq hd) t s₁
  -- reading the image gives back the very chunk that was written
  have hread := Session.run_openChunk_ok (parse_eq_ok_iff.mpr ⟨hd, rfl⟩) t
  refine ⟨_, _, _, _, _, _, run_edit c before t s₁, hwrite, hread _, rfl, rfl, rfl, rfl, rfl, rfl, ?_⟩
  intro after
  have hwrite' := Session.run_serialize_ok (serialize_eq (hd.edit after)) t
  exact ⟨_, _, _, _, _, run_edit _ after t _, run_edit _ after t _, hwrite' _, hwrite' _⟩

/-- The reference chunk is written with a second word and read back, then that word is taken out and
a step fails. -/
theorem reopen_after_edit_reference :
    ∃ c s₁ outcomes d bytes r s₂ s₃ d' r' bytes' s₄,
      Session.run (openChunk Profile.referenceChunk (some ⟨.little, .four, .eight, 8, 0⟩))
        ⟨false, false, none⟩ {} = (.ok c, s₁) ∧
      Session.run (c.edit [.append (.int 0x800026)]) ⟨false, false, none⟩ s₁ =
        (.ok (outcomes, d), s₁) ∧
      Session.run (Session.serialize d) ⟨false, false, none⟩ s₁ = (.ok bytes, s₂) ∧
      Session.run (openChunk bytes (some ⟨.little, .four, .eight, 8, 0⟩)) ⟨false, false, none⟩ s₂ =
        (.ok r, s₃) ∧
      r.code.words = [0x80001f, 0x800026] ∧ r.constants = .ok [] ∧
      Session.run (r.edit [.pop (-1), .pop 3]) ⟨false, false, none⟩ s₃ =
        (.ok ([.ok (.words (.number 0x800026)), .error .indexOutOfRange], r'), s₃) ∧
      Session.run (d.edit [.pop (-1), .pop 3]) ⟨false, false, none⟩ s₃ =
        (.ok ([.ok (.words (.number 0x800026)), .error .indexOutOfRange], d'), s₃) ∧
      Session.run (Session.serialize r') ⟨false, false, none⟩ s₃ = (.ok bytes', s₄) := by
  have hopen : Session.run (openChunk Profile.referenceChunk (some ⟨.little, .four, .eight, 8, 0⟩))
      ⟨false, false, none⟩ {} = (.ok _, _) := rfl
  obtain ⟨outcomes, d, bytes, r, s₂, s₃, hedit, hwrite, hread, hwords, _, _, hconst, _, hconst',
    hafter⟩ := reopen_after_edit hopen [.append (.int 0x800026)]
  obtain ⟨outcomes', d', r', bytes', s₄, hd, hr, _, hwrite'⟩ := hafter [.pop (-1), .pop 3]
  have houtcomes : outcomes' = [.ok (.words (.number 0x800026)), .error .indexOutOfRange] := by
    cases hedit
    cases hd
    rfl
  rw [houtcomes] at hd hr
  refine ⟨_, _, outcomes, d, bytes, r, s₂, s₃, d', r', bytes', s₄, hopen, hedit, hwrite, hread, ?_,
    hconst.trans (hconst'.trans rfl), hr, hd, hwrite'⟩
  rw [hwords]
  cases hedit
  rfl

end LuaBytecode.Chunk
