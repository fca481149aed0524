import LuaBytecode.Proofs.Chunk.Format
import LuaBytecode.Proofs.Fault
import LuaBytecode.Proofs.Instruction.Encoding
import LuaBytecode.Session.Chunks

/-! Chunks in a session: what opening, editing and writing give, and what they leave in the journal.
Editing is the same as running the steps on the words alone, and the session takes no part in it. -/
namespace LuaBytecode

namespace Session

/-- What a trace tells of a word: its instruction, or that its opcode names no operation. -/
def wordText (word : Nat) : String :=
  match Instruction.disassemble word with
  | .ok text => text
  | .error fault => s!"<{fault.message}>"

/-- The events of a trace of words, the first of which has the given index. -/
def traceEvents (index : Nat) (words : List Nat) : List Event :=
  (words.zipIdx index).map fun (word, index) => .traced index word (wordText word)

/-- No word makes a trace fail: the only fault that its text can have is the one that is told in place
of the text. -/
theorem run_traceText {word : Nat} (h : word < Word.bound) (t : Settings) (s : Session) :
    run (traceText word) t s = (.ok (wordText word), s) := by
  have hrun := run_disassemble (run_wordOf_int h t s)
  have hword := Instruction.disassemble_eq word
  rw [traceText, wordText]
  cases hop : Registry.standard.byOpcode? (word % 64 : Nat) with
  | some o =>
    rw [hop] at hword
    rw [hword] at hrun
    rw [run_tryCatch_ok hrun, hword]
  | none =>
    rw [hop] at hword
    rw [hword] at hrun
    have hcategory : (Fault.unknownOpcode (some (word % 64 : Nat))).category = .unknownOpcode :=
      Fault.category_of_isWorded (Fault.isWorded_unknownOpcode word)
    rw [run_tryCatch_error hrun, if_pos hcategory, run_pure, hword]

private theorem run_traceWords {words : List Nat} (h : ∀ word ∈ words, word < Word.bound) (index : Nat)
    (t : Settings) (s : Session) :
    run (traceWords index words) t s =
      (.ok (), { s with journal := s.journal ++ traceEvents index words }) := by
  induction words generalizing index s with
  | nil =>
    rw [traceWords, run_pure]
    simp [traceEvents]
  | cons word words ih =>
    rw [List.forall_mem_cons] at h
    rw [traceWords, run_bind_ok (run_traceText h.1 t s), run_bind_ok (run_record ..), ih h.2,
      List.append_assoc]
    rfl

/-- What the journal records of a chunk that was opened. -/
def openEvents (t : Settings) (size : Nat) (c : Chunk) : List Event :=
  .opened size c.code.size :: if t.trace then traceEvents 0 c.code.words else []

theorem run_openChunk (data : Bytes) (p : Profile) (t : Settings) (s : Session) :
    run (openChunk data (some p)) t s =
      match Chunk.parse p data with
      | .ok c => (.ok c, { s with journal := s.journal ++ openEvents t data.length c })
      | .error fault => (.error fault, s) := by
  simp only [openChunk, run_bind, run_pure, run_lift]
  cases hparse : Chunk.parse p data with
  | error fault => rfl
  | ok c =>
    have hwords := (Chunk.parse_eq_ok_iff.mp hparse).1.code_valid.lt_bound
    have hread : run (read : Run Settings) t
        { s with journal := s.journal ++ [.opened data.length c.code.size] } =
      (.ok t, { s with journal := s.journal ++ [.opened data.length c.code.size] }) := rfl
    simp only [run_record, hread, openEvents]
    cases t.trace with
    | true => simp only [if_true, run_bind, run_traceWords hwords, run_pure, List.append_assoc,
        List.cons_append, List.nil_append]
    | false => simp only [Bool.false_eq_true, if_false, run_pure]

theorem parse_of_openChunk {data : Bytes} {p : Profile} {t : Settings} {s s₁ : Session} {c : Chunk}
    (h : run (openChunk data (some p)) t s = (.ok c, s₁)) : Chunk.parse p data = .ok c := by
  rw [run_openChunk] at h
  cases hparse : Chunk.parse p data with
  | error fault =>
    rw [hparse] at h
    cases h
  | ok c' =>
    rw [hparse] at h
    cases h
    rfl

theorem run_openChunk_ok {data : Bytes} {p : Profile} {c : Chunk} (h : Chunk.parse p data = .ok c)
    (t : Settings) (s : Session) :
    run (openChunk data (some p)) t s =
      (.ok c, { s with journal := s.journal ++ openEvents t data.length c }) := by
  rw [run_openChunk, h]

theorem run_serialize_ok {c : Chunk} {bytes : Bytes} (h : c.serialize = .ok bytes) (t : Settings)
    (s : Session) :
    run (serialize c) t s =
      (.ok bytes, { s with journal := s.journal ++ [.serialized c.code.size bytes.length] }) := by
  rw [serialize, run_bind, run_lift, h]
  simp only [run_bind, run_record, run_pure]

end Session

namespace Chunk

/-- Asks the words of a chunk for one step after the other; a step that fails is passed over. -/
def edit (c : Chunk) : List WordArray.Step → Run (List (Except Fault Reply) × Chunk)
  | [] => return ([], c)
  | step :: steps => do
    let (outcome, c) ← c.step (.words step)
    let (outcomes, c) ← c.edit steps
    return (outcome :: outcomes, c)

private theorem run_step_words (c : Chunk) (step : WordArray.Step) (t : Settings) (s : Session) :
    Session.run (c.step (.words step)) t s =
      (.ok ((c.code.step step).1.map Reply.words, { c with code := (c.code.step step).2 }), s) := by
  rw [Chunk.step, Session.run_tryCatch, Session.run_bind, advance, Session.run_bind,
    Session.run_lift, WordArray.step]
  cases c.code.advance step with
  | ok result => rfl
  | error fault => rfl

/-- Editing a chunk is running the steps on its words: the rest of the chunk and the session stay. -/
theorem run_edit (c : Chunk) (steps : List WordArray.Step) (t : Settings) (s : Session) :
    Session.run (c.edit steps) t s =
      (.ok ((c.code.run steps).1.map (·.map Reply.words), { c with code := (c.code.run steps).2 }),
        s) := by
  induction steps generalizing c with
  | nil => rfl
  | cons step steps ih =>
    rw [edit, Session.run_bind_ok (run_step_words c step t s), Session.run_bind_ok (ih _)]
    rfl

end Chunk
end LuaBytecode
