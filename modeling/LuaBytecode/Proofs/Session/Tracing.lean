import LuaBytecode.Proofs.Session.Chunks
import LuaBytecode.Proofs.Text.Hexadecimal
import LuaBytecode.Proofs.Text.Numeral

/-! Traces of opened chunks: a trace changes nothing but the journal, where it adds one line for each
word, whatever the word is. -/
namespace LuaBytecode.Session
open Text.Hex (WritesWord)

/-- A line of a trace: the index, any spaces before it, the word in digits, and a text about the word,
with two spaces between them. -/
def TraceLine (index word : Nat) (text line : String) : Prop :=
  ∃ spaces digits : List Char, (∀ c ∈ spaces, c = ' ') ∧ WritesWord digits word ∧
    line.toList = spaces ++ (toString index).toList ++ [' ', ' '] ++ digits ++ [' ', ' '] ++ text.toList

private theorem message_traced (index word : Nat) (text : String) :
    (Event.traced index word text).message =
      String.ofList (Text.padLeft 5 ' ' (Text.decimalChars index)) ++ "  " ++ Text.wordHex word ++
        "  " ++ text := rfl

private theorem traceLine_message {index word : Nat} (h : word < Word.bound) (text : String) :
    TraceLine index word text (Event.traced index word text).message := by
  have hbound : Word.bound = 16 ^ 8 := by decide
  have hindex : (toString index).toList = Text.decimalChars index := by
    rw [Text.decimalChars_eq]
    exact Nat.toList_repr
  refine ⟨List.replicate (5 - (Text.decimalChars index).length) ' ', (Text.wordHex word).toList, ?_,
    Text.Hex.writesWord_wordHex (hbound ▸ h), ?_⟩
  · intro c hc
    exact List.eq_of_mem_replicate hc
  · rw [message_traced, hindex]
    simp [Text.padLeft]

/-- What a trace tells of a word is its instruction, or that its opcode is not that of an operation. -/
structure Tells (t : Settings) (s : Session) (word : Nat) (text : String) : Prop where
  known : ∀ o, Registry.standard.byOpcode? (word % 64 : Nat) = some o →
    (run (disassemble (.int word)) t s).1 = .ok text
  unknown : Registry.standard.byOpcode? (word % 64 : Nat) = none →
    text = s!"<Invalid opcode {word % 64}>"

private theorem message_unknownOpcode (word : Nat) :
    s!"<{(Fault.unknownOpcode (some (word % 64 : Nat))).message}>" = s!"<Invalid opcode {word % 64}>" := by
  rw [Fault.message_of_isWorded (Fault.isWorded_unknownOpcode word)]
  generalize word % 64 = n
  show "<" ++ ("Invalid opcode " ++ Text.decimal n) ++ ">" = "<Invalid opcode " ++ toString n ++ ">"
  rw [Text.decimal_natCast, ← String.toList_inj]
  simp

private theorem tells_wordText {word : Nat} (h : word < Word.bound) (t : Settings) (s : Session) :
    Tells t s word (wordText word) := by
  refine ⟨?_, ?_⟩
  · intro o ho
    rw [run_disassemble (run_wordOf_int h t s), wordText, Instruction.disassemble_eq, ho]
  · intro hnone
    rw [wordText, Instruction.disassemble_eq, hnone]
    exact message_unknownOpcode word

private theorem getElem?_traceEvents {words : List Nat} {i word : Nat} (h : words[i]? = some word) :
    (traceEvents 0 words)[i]? = some (.traced i word (wordText word)) := by
  rw [traceEvents, List.getElem?_map, List.getElem?_zipIdx, h]
  simp

private theorem exists_session_of_ok {α : Type} {result : Except Fault α × Session} {a : α}
    (h : result.1 = .ok a) : ∃ s', result = (.ok a, s') :=
  ⟨result.2, Prod.ext h rfl⟩

private theorem length_traceEvents (index : Nat) (words : List Nat) :
    (traceEvents index words).length = words.length := by
  rw [traceEvents, List.length_map, List.length_zipIdx]

/-- A trace only observes. Whether a chunk is opened with one or without one, the outcome is the same,
and a chunk that is not opened leaves the session as it was. One that is opened is recorded with the
number of its bytes and of its words; a trace adds a line for each word in turn, known or not, and
nothing is added without one. -/
theorem openChunk_tracing (data : Bytes) (p : Profile) (e : Environment) (s : Session) :
    (∀ trace, (run (openChunk data (some p)) { e with trace }.settings s).1 =
      (run (openChunk data (some p)) e.settings s).1) ∧
    (∀ fault s', run (openChunk data (some p)) e.settings s = (.error fault, s') → s' = s) ∧
    ∀ c s', run (openChunk data (some p)) e.settings s = (.ok c, s') →
      ∃ lines, s' = { s with
          journal := s.journal ++ .opened data.length c.code.words.length :: lines } ∧
        (Settings.flag e.trace = false → lines = []) ∧
        (Settings.flag e.trace = true → lines.length = c.code.words.length ∧
          ∀ i word, c.code.words[i]? = some word → ∃ text, lines[i]? = some (.traced i word text) ∧
            TraceLine i word text (Event.traced i word text).message ∧
            Tells e.settings s word text) := by
  have htrace : e.settings.trace = Settings.flag e.trace := rfl
  refine ⟨?_, ?_, ?_⟩
  · intro trace
    rw [run_openChunk, run_openChunk]
    cases Chunk.parse p data <;> rfl
  · intro fault s' h
    rw [run_openChunk] at h
    cases hparse : Chunk.parse p data with
    | error fault' =>
      rw [hparse] at h
      cases h
      rfl
    | ok c =>
      rw [hparse] at h
      cases h
  · intro c s' h
    have hparse := parse_of_openChunk h
    have hbound := (Chunk.parse_eq_ok_iff.mp hparse).1.code_valid.lt_bound
    rw [run_openChunk_ok hparse, openEvents, htrace] at h
    cases h
    refine ⟨_, rfl, ?_, ?_⟩
    · intro hoff
      rw [hoff, if_neg Bool.false_ne_true]
    · intro hon
      rw [if_pos hon]
      refine ⟨length_traceEvents 0 _, ?_⟩
      intro i word hword
      have hlt := hbound word (List.mem_of_getElem? hword)
      exact ⟨wordText word, getElem?_traceEvents hword, traceLine_message hlt _, tells_wordText hlt _ s⟩

/-- A chunk of two words, the second of which has no operation, opened with a trace; without one only
the opening is recorded. A chunk that is cut short is not opened with a trace either. -/
theorem openChunk_tracing_unknown :
    let p : Profile := ⟨.little, .four, .eight, 8, 0⟩
    let data := Profile.referenceChunk.take 29 ++
      [2, 0, 0, 0, 0x1f, 0, 0x80, 0, 0xff, 0xff, 0xff, 0xff] ++ Profile.referenceChunk.drop 37
    let e : Environment := { trace := some " On " }
    (∃ c s', run (openChunk data (some p)) e.settings {} = (.ok c, s') ∧
      s'.journal = [.opened data.length 2, .traced 0 0x80001f "RETURN 0 1",
        .traced 1 0xffffffff "<Invalid opcode 63>"] ∧
      TraceLine 1 0xffffffff "<Invalid opcode 63>" "    1  FFFFFFFF  <Invalid opcode 63>") ∧
    (∃ c s', run (openChunk data (some p)) ({} : Environment).settings {} = (.ok c, s') ∧
      s'.journal = [.opened data.length 2]) ∧
    (run (openChunk (data.take 36) (some p)) e.settings {}).2 = {} := by
  intro p data e
  have hopen : run (openChunk data (some p)) ({} : Environment).settings {} = (.ok _, _) := rfl
  refine ⟨?_, ?_, ?_⟩
  · have htraced := (openChunk_tracing data p {} {}).1 e.trace
    rw [hopen] at htraced
    obtain ⟨s', hon⟩ := exists_session_of_ok htraced
    obtain ⟨lines, hs', _, hlines⟩ := (openChunk_tracing data p e {}).2.2 _ _ hon
    obtain ⟨hlength, hlines⟩ := hlines (by decide)
    obtain ⟨text₀, h₀, _, htells₀⟩ := hlines 0 0x80001f rfl
    obtain ⟨text₁, h₁, hline, htells₁⟩ := hlines 1 0xffffffff rfl
    have hreturn := htells₀.known _ rfl
    have htext : (run (disassemble (.int (0x80001f : Nat))) e.settings {}).1 = .ok "RETURN 0 1" := by
      decide +kernel
    cases hreturn.symm.trans htext
    obtain rfl : text₁ = "<Invalid opcode 63>" := htells₁.unknown (by decide +kernel)
    have hmessage : (Event.traced 1 0xffffffff "<Invalid opcode 63>").message =
        "    1  FFFFFFFF  <Invalid opcode 63>" := by
      decide +kernel
    refine ⟨_, s', hon, ?_, hmessage ▸ hline⟩
    rw [hs']
    obtain ⟨line₀, line₁, rfl⟩ := List.length_eq_two.mp hlength
    cases h₀
    cases h₁
    rfl
  · obtain ⟨lines, hs', hnone, _⟩ := (openChunk_tracing data p {} {}).2.2 _ _ hopen
    refine ⟨_, _, hopen, ?_⟩
    rw [hs', hnone rfl]
    rfl
  · exact (openChunk_tracing (data.take 36) p e {}).2.1 _ _ rfl

end LuaBytecode.Session
