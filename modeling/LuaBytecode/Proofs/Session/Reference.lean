import LuaBytecode.Proofs.Session.Instructions
import LuaBytecode.Proofs.Text.Hexadecimal

/-! The reference chunk that the environment names: a text that writes out bytes stands for the bytes,
blanks stand for the chunk that is built in, and any other text is refused. -/
namespace LuaBytecode

namespace Settings

theorem trimmed_eq_empty_iff {text : String} :
    Text.trimmed text = "" ↔ ∀ c ∈ text.toList, Text.isBlank c = true := by
  rw [Text.trimmed, ← String.toList_inj, String.toList_ofList]
  constructor
  · intro h c hc
    obtain ⟨front, back, hfront, hback, htext⟩ := Text.exists_eq_append_trim text.toList
    rw [htext, h, String.toList_empty, List.append_nil] at hc
    rcases List.mem_append.mp hc with hc | hc
    · exact hfront c hc
    · exact hback c hc
  · intro h
    rw [Text.trim, List.dropWhile_eq_nil_iff.mpr h]
    rfl

private theorem content_of_blank {text : String} (h : ∀ c ∈ text.toList, Text.isBlank c = true) :
    content (some text) = none := by
  rw [content, if_pos (trimmed_eq_empty_iff.mpr h)]

theorem content_of_not_blank {text : String} (h : ∃ c ∈ text.toList, Text.isBlank c = false) :
    content (some text) = some (Text.trimmed text) := by
  rw [content, if_neg]
  intro hempty
  obtain ⟨c, hc, hblank⟩ := h
  exact Bool.noConfusion (hblank.symm.trans (trimmed_eq_empty_iff.mp hempty c hc))

end Settings

private theorem Environment.referenceChunk_settings (e : Environment) :
    e.settings.referenceChunk = Settings.content e.referenceChunk := rfl

namespace Session
open Text (isBlank)
open Text.Hex (WritesOut)

private theorem run_derive_some (bytes : Bytes) (t : Settings) (s : Session) :
    run (derive (some bytes)) t s =
      match Profile.ofHeader bytes with
      | .ok p => (.ok p, { s with journal := s.journal ++ [.derived p] })
      | .error fault => (.error fault, s) := by
  rw [derive, run_bind_ok (run_pure bytes t s), run_bind, run_lift]
  cases Profile.ofHeader bytes <;> rfl

/-- Once the reference chunk is found, deriving from it is deriving from its bytes. -/
theorem run_derive_of_reference {t : Settings} {bytes : Bytes} (h : reference t = .ok bytes)
    (s : Session) : run (derive none) t s = run (derive (some bytes)) t s := by
  rw [run_derive_none, h, run_derive_some]
  rfl

private theorem run_derive_of_reference_error {t : Settings} {fault : Fault}
    (h : reference t = .error fault) (s : Session) :
    run (derive none) t s = (.error fault, s) := by
  rw [run_derive_none, h]
  rfl

private theorem reference_of_none {t : Settings} (ht : t.referenceChunk = none) :
    reference t = .ok Profile.referenceChunk := by
  rw [reference, ht]

private theorem reference_of_decode {text : String} {t : Settings} (ht : t.referenceChunk = some text)
    {bytes : Bytes} (h : Text.Hex.decode text = .ok bytes) : reference t = .ok bytes := by
  rw [reference, ht]
  dsimp only
  rw [h]

private theorem reference_of_decode_error {text : String} {t : Settings}
    (ht : t.referenceChunk = some text) {position : Nat}
    (h : Text.Hex.decode text = .error position) :
    reference t = .error (.referenceNotHex position) := by
  rw [reference, ht]
  dsimp only
  rw [h]

section
variable {t : Settings} {text : String} (ht : t.referenceChunk = Settings.content (some text))
include ht

private theorem run_derive_of_writesOut {bytes : Bytes} (hne : bytes ≠ []) (hwrites : WritesOut bytes text)
    (s : Session) : run (derive none) t s = run (derive (some bytes)) t s := by
  have hvisible := hwrites.exists_not_blank hne
  rw [Settings.content_of_not_blank hvisible] at ht
  have hdecode := (Text.Hex.decode_trimmed_eq_ok_iff hvisible).mpr ⟨hne, hwrites⟩
  exact run_derive_of_reference (reference_of_decode ht hdecode) s

private theorem run_derive_of_not_writesOut (hvisible : ∃ c ∈ text.toList, isBlank c = false)
    (hnone : ¬ ∃ bytes, bytes ≠ [] ∧ WritesOut bytes text) (s : Session) :
    ∃ position, run (derive none) t s = (.error (.referenceNotHex position), s) := by
  rw [Settings.content_of_not_blank hvisible] at ht
  cases hdecode : Text.Hex.decode (Text.trimmed text) with
  | ok bytes => exact absurd ⟨bytes, (Text.Hex.decode_trimmed_eq_ok_iff hvisible).mp hdecode⟩ hnone
  | error position =>
    have hrefused := reference_of_decode_error ht hdecode
    exact ⟨position, run_derive_of_reference_error hrefused s⟩

private theorem run_derive_of_blank (hblank : ∀ c ∈ text.toList, isBlank c = true) (s : Session) :
    run (derive none) t s = run (derive (some Profile.referenceChunk)) t s := by
  rw [Settings.content_of_blank hblank] at ht
  exact run_derive_of_reference (reference_of_none ht) s

end

/-- Naming a reference chunk in the environment is giving its bytes. A text that writes out bytes, in
digits of either case with blanks of ASCII before pairs and any blanks around the whole, gives what the
bytes give. A text of blanks gives what the chunk that is built in gives. Any other text is refused as
not being written in digits, and nothing is recorded. -/
theorem derive_configured (e : Environment) (text : String) (s : Session) :
    let t := { e with referenceChunk := some text }.settings
    (∀ bytes, bytes ≠ [] → WritesOut bytes text →
      run (derive none) t s = run (derive (some bytes)) t s) ∧
    ((∃ c ∈ text.toList, isBlank c = false) → (¬ ∃ bytes, bytes ≠ [] ∧ WritesOut bytes text) →
      ∃ position, run (derive none) t s = (.error (.referenceNotHex position), s) ∧
        (Fault.referenceNotHex position).category = .profile) ∧
    ((∀ c ∈ text.toList, isBlank c = true) →
      run (derive none) t s = run (derive (some Profile.referenceChunk)) t s) := by
  intro t
  have ht : t.referenceChunk = Settings.content (some text) := Environment.referenceChunk_settings _
  refine ⟨?_, ?_, ?_⟩
  · intro bytes hne hwrites
    exact run_derive_of_writesOut ht hne hwrites s
  · intro hvisible hnone
    obtain ⟨position, hrun⟩ := run_derive_of_not_writesOut ht hvisible hnone s
    exact ⟨position, hrun, rfl⟩
  · intro hblank
    exact run_derive_of_blank ht hblank s

/-- Two bytes in digits of both cases, between blanks of several kinds, are too short for a header. A
blank between the two digits of a pair is refused. Blanks alone are the chunk that is built in. -/
theorem derive_configured_blanks :
    let settings (text : String) := ({ referenceChunk := some text } : Environment).settings
    run (derive none) (settings "\u00a0 1B\x0b\x0cfF\u2003") {} = (.error (.referenceTooShort 2), {}) ∧
    (∃ position, run (derive none) (settings "1 B") {} = (.error (.referenceNotHex position), {})) ∧
    (run (derive none) (settings " \u3000") {}).1 = .ok ⟨.little, .four, .eight, 8, 0⟩ := by
  intro settings
  refine ⟨?_, ?_, ?_⟩
  · have hwrites : WritesOut [0x1b, 0xff] "\u00a0 1B\x0b\x0cfF\u2003" := by
      have hgap : ∀ c ∈ ['\x0b', '\x0c'], c ∈ Text.Hex.spaces := by simp [Text.Hex.spaces]
      have hlast : Text.Hex.Writes [0xff] ['\x0b', '\x0c', 'f', 'F'] :=
        .cons hgap (.inl rfl) (.inr rfl) .nil
      exact ⟨['\u00a0', ' '], _, ['\u2003'], List.all_eq_true.mp (by decide),
        List.all_eq_true.mp (by decide), .pair (.inl rfl) (.inr rfl) hlast, by decide⟩
    rw [(derive_configured {} _ {}).1 _ (by decide) hwrites]
    rfl
  · have hvisible : ∃ c ∈ "1 B".toList, isBlank c = false := ⟨'B', by decide, by decide⟩
    have hnone : ¬ ∃ bytes, bytes ≠ [] ∧ WritesOut bytes "1 B" := by
      intro ⟨bytes, hbytes⟩
      have hdecode := (Text.Hex.decode_trimmed_eq_ok_iff hvisible).mpr hbytes
      have herror : Text.Hex.decode (Text.trimmed "1 B") = .error 1 := by decide
      rw [herror] at hdecode
      cases hdecode
    obtain ⟨position, hrun, _⟩ := (derive_configured {} "1 B" {}).2.1 hvisible hnone
    exact ⟨position, hrun⟩
  · rw [(derive_configured {} " \u3000" {}).2.2 (List.all_eq_true.mp (by decide))]
    rfl

end Session
end LuaBytecode
