import LuaBytecode.Proofs.Outcome
import LuaBytecode.Proofs.Profile
import LuaBytecode.Session.Instructions

/-! Instructions in a session: the profile of this machine stays the same once it is known, a word
and its bytes on this machine name the same instruction, and all else is done without the session. -/
namespace LuaBytecode.Session
variable {t : Settings} {s s₁ : Session} {p : Profile}

theorem run_hostProfile_of_host (h : s.host = some p) (t : Settings) :
    run hostProfile t s = (.ok p, s) := by
  have hget : run (get : Run Session) t s = (.ok s, s) := rfl
  rw [hostProfile, run_bind_ok hget, h, run_pure]

theorem host_of_run_hostProfile (h : run hostProfile t s = (.ok p, s₁)) : s₁.host = some p := by
  have hget : run (get : Run Session) t s = (.ok s, s) := rfl
  rw [hostProfile, run_bind_ok hget] at h
  cases hhost : s.host with
  | some q =>
    rw [hhost] at h
    cases h
    exact hhost
  | none =>
    rw [hhost] at h
    obtain ⟨q, s₂, hderive, h⟩ := run_bind_eq_ok_iff.mp h
    cases h
    rfl

theorem run_derive_none (t : Settings) (s : Session) :
    run (derive none) t s =
      match reference t >>= Profile.ofHeader with
      | .ok p => (.ok p, { s with journal := s.journal ++ [.derived p] })
      | .error fault => (.error fault, s) := by
  have hread : run (read : Run Settings) t s = (.ok t, s) := rfl
  rw [derive]
  dsimp only
  rw [run_bind_ok hread, run_bind, run_lift]
  cases reference t with
  | error fault => rfl
  | ok bytes =>
    dsimp only
    rw [run_bind, run_lift, Outcome.ok_bind]
    cases Profile.ofHeader bytes <;> rfl

/-- A profile that is not known yet is read from the reference chunk that the settings name. -/
theorem run_hostProfile_of_none (h : s.host = none) (t : Settings) :
    run hostProfile t s =
      match reference t >>= Profile.ofHeader with
      | .ok p => (.ok p, ⟨some p, s.journal ++ [.derived p]⟩)
      | .error fault => (.error fault, s) := by
  have hget : run (get : Run Session) t s = (.ok s, s) := rfl
  rw [hostProfile, run_bind_ok hget, h]
  dsimp only
  rw [run_bind, run_derive_none]
  cases reference t >>= Profile.ofHeader <;> rfl

private theorem reference_congr {t' : Settings} (h : t.referenceChunk = t'.referenceChunk) :
    reference t = reference t' := by
  rw [reference, reference, h]

/-- Of the settings, only the reference chunk decides which profile is found. -/
theorem run_hostProfile_congr {t' : Settings} (h : t.referenceChunk = t'.referenceChunk)
    (s : Session) : run hostProfile t s = run hostProfile t' s := by
  cases hhost : s.host with
  | some p => rw [run_hostProfile_of_host hhost, run_hostProfile_of_host hhost]
  | none => rw [run_hostProfile_of_none hhost, run_hostProfile_of_none hhost, reference_congr h]

private theorem category_of_reference {fault : Fault} (h : reference t = .error fault) :
    fault.category = .profile := by
  rw [reference] at h
  split at h
  · cases h
  split at h
  · cases h
  · cases h
    rfl

/-- Only as a profile can the profile that the settings name be refused. -/
theorem category_of_named {fault : Fault} (h : (reference t >>= Profile.ofHeader) = .error fault) :
    fault.category = .profile := by
  rcases Outcome.bind_eq_error_iff.mp h with hbytes | ⟨bytes, _, hprofile⟩
  · exact category_of_reference hbytes
  · exact Profile.category_of_ofHeader hprofile

theorem category_of_run_hostProfile {fault : Fault} (h : (run hostProfile t s).1 = .error fault) :
    fault.category = .profile := by
  cases hhost : s.host with
  | some p =>
    rw [run_hostProfile_of_host hhost] at h
    cases h
  | none =>
    rw [run_hostProfile_of_none hhost] at h
    cases hderived : reference t >>= Profile.ofHeader with
    | ok p =>
      rw [hderived] at h
      cases h
    | error fault' =>
      rw [hderived] at h
      cases h
      exact category_of_named hderived

theorem run_wordOf_int {word : Nat} (h : word < Word.bound) (t : Settings) (s : Session) :
    run (wordOf (.int word)) t s = (.ok word, s) := by
  show run (liftM (Word.ofDatum (.int word))) t s = _
  rw [run_lift, Word.ofDatum_natCast h]

/-- The bytes of a word on this machine are read as the word. -/
private theorem run_wordOf_ofBytes {word : Nat} (h : word < Word.bound)
    (hp : run hostProfile t s = (.ok p, s₁)) :
    run (wordOf.ofBytes (Unsigned.encode p.order Word.size word)) t s = (.ok word, s₁) := by
  have hlen : ¬ (Unsigned.encode p.order Word.size word).length ≠ Word.size := by simp
  rw [wordOf.ofBytes, if_neg hlen]
  show run (hostProfile >>= fun q => liftM (q.numberAt _ 0 Word.size)) t s = _
  rw [run_bind_ok hp, run_lift, p.numberAt_encode h]

theorem run_wordOf_bytes {word : Nat} (h : word < Word.bound)
    (hp : run hostProfile t s = (.ok p, s₁)) :
    run (wordOf (.bytes (Unsigned.encode p.order Word.size word))) t s = (.ok word, s₁) :=
  run_wordOf_ofBytes h hp

theorem run_wordOf_byteArray {word : Nat} (h : word < Word.bound)
    (hp : run hostProfile t s = (.ok p, s₁)) :
    run (wordOf (.byteArray (Unsigned.encode p.order Word.size word))) t s = (.ok word, s₁) :=
  run_wordOf_ofBytes h hp

/-- Once the word is known, only the word matters. -/
theorem run_decode {datum : Datum} {word : Nat} (h : run (wordOf datum) t s = (.ok word, s₁)) :
    run (decode datum) t s = (Instruction.ofWord word, s₁) := by
  rw [decode, run_bind_ok h, run_lift]

theorem run_disassemble {datum : Datum} {word : Nat} (h : run (wordOf datum) t s = (.ok word, s₁)) :
    run (disassemble datum) t s = (Instruction.disassemble word, s₁) := by
  rw [disassemble, run_bind, run_decode h, Instruction.disassemble]
  cases Instruction.ofWord word <;> rfl

/-- Encoding takes no part of the session and only the check of ranges from the settings. -/
theorem run_encode_eq (op : Datum) (operands : List Datum) (t : Settings) (s : Session) :
    run (encode op operands) t s =
      (Operation.ofDatum op >>= fun o => o.encode t.strictOperands operands, s) := by
  rw [encode, run_bind, run_lift]
  cases Operation.ofDatum op <;> rfl

theorem run_encode {op : Datum} {o : Operation} (hop : Operation.ofDatum op = .ok o)
    (operands : List Datum) (t : Settings) (s : Session) :
    run (encode op operands) t s = (o.encode t.strictOperands operands, s) := by
  rw [run_encode_eq, hop, Outcome.ok_bind]

/-- A word and its bytes on this machine. -/
def withBytes (word : Nat) : Run (Nat × Bytes) := do
  let bytes ← (← hostProfile).wordBytes word
  return (word, bytes)

/-- A text is assembled to the word without the session, and the bytes are found after it. -/
theorem run_assemble (text : String) (t : Settings) (s : Session) :
    run (assemble text) t s =
      match Instruction.assemble t.strictOperands text with
      | .ok word => run (withBytes word) t s
      | .error fault => (.error fault, s) := by
  have hread : run (read : Run Settings) t s = (.ok t, s) := rfl
  rw [assemble, run_bind_ok hread, run_bind, run_lift]
  cases Instruction.assemble t.strictOperands text <;> rfl

theorem run_assemble_error {text : String} {fault : Fault}
    (h : Instruction.assemble t.strictOperands text = .error fault) (s : Session) :
    run (assemble text) t s = (.error fault, s) := by
  rw [run_assemble, h]

private theorem run_withBytes_eq_ok_iff {word word' : Nat} {bytes : Bytes} :
    run (withBytes word) t s = (.ok (word', bytes), s₁) ↔
      word = word' ∧ ∃ p, run hostProfile t s = (.ok p, s₁) ∧ p.wordBytes word = .ok bytes := by
  rw [withBytes, run_bind_eq_ok_iff]
  constructor
  · rintro ⟨p, s₂, hp, h⟩
    obtain ⟨bytes', s₃, hbytes, h⟩ := run_bind_eq_ok_iff.mp h
    rw [run_lift, Prod.mk.injEq] at hbytes
    obtain ⟨hbytes, rfl⟩ := hbytes
    cases h
    exact ⟨rfl, p, hp, hbytes⟩
  · rintro ⟨rfl, p, hp, hbytes⟩
    refine ⟨p, s₁, hp, ?_⟩
    rw [run_bind, run_lift, hbytes]
    rfl

/-- A text is assembled exactly if it has a word, the profile of this machine can be found and the
word has bytes there. -/
theorem run_assemble_eq_ok_iff {text : String} {word : Nat} {bytes : Bytes} :
    run (assemble text) t s = (.ok (word, bytes), s₁) ↔
      Instruction.assemble t.strictOperands text = .ok word ∧
        ∃ p, run hostProfile t s = (.ok p, s₁) ∧ p.wordBytes word = .ok bytes := by
  rw [run_assemble]
  cases Instruction.assemble t.strictOperands text with
  | error fault => simp
  | ok word' =>
    rw [run_withBytes_eq_ok_iff, Except.ok.injEq]
    refine and_congr_right ?_
    rintro rfl
    rfl

theorem run_withBytes_congr {t' : Settings} (h : t.referenceChunk = t'.referenceChunk) (word : Nat)
    (s : Session) : run (withBytes word) t s = run (withBytes word) t' s := by
  rw [withBytes, run_bind, run_bind, run_hostProfile_congr h]
  rcases run hostProfile t' s with ⟨fault | p, s₁⟩
  · rfl
  · dsimp only
    rw [run_bind, run_bind, run_lift, run_lift]
    cases p.wordBytes word <;> rfl

/-- Only the profile of this machine can be missing for the bytes of a word. -/
theorem category_of_run_withBytes {word : Nat} (hword : word < Word.bound) {fault : Fault}
    (h : (run (withBytes word) t s).1 = .error fault) : fault.category = .profile := by
  rw [withBytes, run_bind] at h
  cases hp : run hostProfile t s with
  | mk outcome s₁ =>
    cases outcome with
    | error fault' =>
      rw [hp] at h
      cases h
      exact category_of_run_hostProfile (congrArg Prod.fst hp)
    | ok p =>
      rw [hp] at h
      dsimp only at h
      rw [run_bind, run_lift, p.wordBytes_eq hword] at h
      cases h

end LuaBytecode.Session
