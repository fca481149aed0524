import LuaBytecode.Proofs.Session.Chunks

/-! The profile of this machine over a run of calls: it is derived when a call first needs it, at most
once, and every call that needs it has the same one. A profile that cannot be derived fails those
calls and no others. -/
namespace LuaBytecode

namespace Session

/-- What can be asked of a session, one call after the other. An array and a chunk are given with what
they hold when the call is made. -/
inductive Call where
  | assemble (text : String)
  | encode (operation : Datum) (operands : List Datum)
  | decode (datum : Datum)
  | disassemble (datum : Datum)
  | wordBytes (datum : Datum)
  | wordAt (data : Bytes) (offset : Int)
  | openChunk (data : Bytes) (profile : Option Profile)
  | array (a : WordArray) (step : WordArray.Step)
  | edit (c : Chunk) (step : WordArray.Step)

inductive Answer where
  | assembled (value : Nat × Bytes)
  | word (value : Nat)
  | instruction (value : Instruction)
  | text (value : String)
  | bytes (value : Bytes)
  | opened (value : Chunk)
  | array (value : WordArray.Reply × WordArray)
  | edited (value : Chunk.Reply × Chunk)

namespace Call

def perform : Call → Run Answer
  | .assemble text => .assembled <$> Session.assemble text
  | .encode operation operands => .word <$> Session.encode operation operands
  | .decode datum => .instruction <$> Session.decode datum
  | .disassemble datum => .text <$> Session.disassemble datum
  | .wordBytes datum => .bytes <$> Session.wordBytes datum
  | .wordAt data offset => .word <$> Session.wordAt data offset
  | .openChunk data profile => .opened <$> Session.openChunk data profile
  | .array a step => .array <$> liftM (a.advance step)
  | .edit c step => .edited <$> c.advance (.words step)

/-- The word that a datum is on a machine. -/
def wordOn (host : Except Fault Profile) : Datum → Except Fault Nat
  | .bytes value => ofBytes value
  | .byteArray value => ofBytes value
  | datum => Word.ofDatum datum
where
  ofBytes (bytes : Bytes) : Except Fault Nat :=
    if bytes.length = Word.size then host >>= fun p => p.numberAt bytes 0 Word.size
    else .error (.wordByteCount bytes.length)

/-- What a call gives on a machine, in the order in which its parts can fail. -/
def answer (strict : Bool) (host : Except Fault Profile) : Call → Except Fault Answer
  | .assemble text => .assembled <$> do
    let word ← Instruction.assemble strict text
    return (word, ← (← host).wordBytes word)
  | .encode operation operands => .word <$> do
    (← Operation.ofDatum operation).encode strict operands
  | .decode datum => .instruction <$> (wordOn host datum >>= Instruction.ofWord)
  | .disassemble datum => .text <$> (wordOn host datum >>= Instruction.disassemble)
  | .wordBytes datum => .bytes <$> (host >>= fun p => p.datumBytes datum)
  | .wordAt data offset => .word <$> (host >>= fun p => p.numberAt data offset Word.size)
  | .openChunk data none => .opened <$> (host >>= fun p => Chunk.parse p data)
  | .openChunk data (some p) => .opened <$> Chunk.parse p data
  | .array a step => .array <$> a.advance step
  | .edit c step => .edited <$> do
    let (reply, code) ← c.code.advance step
    return (.words reply, { c with code })

/-- Whether a datum can only be read in the byte order of this machine. -/
def NeedsOrder : Datum → Prop
  | .bytes value => value.length = Word.size
  | .byteArray value => value.length = Word.size
  | _ => False

/-- Whether a call needs the profile of this machine. A text that has no word does not. -/
def NeedsHost (strict : Bool) : Call → Prop
  | .assemble text => ∃ word, Instruction.assemble strict text = .ok word
  | .decode datum => NeedsOrder datum
  | .disassemble datum => NeedsOrder datum
  | .wordBytes _ => True
  | .wordAt _ _ => True
  | .openChunk _ none => True
  | _ => False

end Call

/-- Makes a computation and gives its outcome, also if it fails. -/
def attempt {α : Type} (x : Run α) : Run (Except Fault α) :=
  tryCatch (.ok <$> x) fun fault => return .error fault

/-- Makes calls one after the other; a call that fails does not end the run. -/
def performAll : List Call → Run (List (Except Fault Answer))
  | [] => return []
  | call :: calls => do
    let outcome ← attempt call.perform
    let outcomes ← performAll calls
    return outcome :: outcomes

/-- The profile that the settings name. -/
def configured (t : Settings) : Except Fault Profile := reference t >>= Profile.ofHeader

/-- The profile that an event tells of. -/
def derivation? : Event → Option Profile
  | .derived p => some p
  | _ => none

/-- The profiles that a journal tells of, one for each time a profile was derived. -/
def derivations (journal : List Event) : List Profile := journal.filterMap derivation?

/-- A session knows no profile but the one that the settings name, and has recorded the profile once if
it knows it. -/
structure Settled (t : Settings) (s : Session) : Prop where
  named : ∀ p, s.host = some p → configured t = .ok p
  recorded : derivations s.journal = s.host.toList

/-- What became of a session that was asked for the profile, or not. -/
structure Leads (t : Settings) (asked : Prop) (s s' : Session) : Prop where
  settled : Settled t s'
  known : asked → s'.host = (configured t).toOption
  kept : ¬ asked → s'.host = s.host

section
variable {α β : Type} {t : Settings} {s s₁ s₂ : Session} {asked later : Prop}

theorem Leads.refl (h : Settled t s) : Leads t False s s :=
  ⟨h, False.elim, fun _ => rfl⟩

theorem Leads.trans (h : Leads t asked s s₁) (h' : Leads t later s₁ s₂) :
    Leads t (asked ∨ later) s s₂ := by
  refine ⟨h'.settled, ?_, ?_⟩
  · intro hasked
    by_cases hlater : later
    · exact h'.known hlater
    · rw [h'.kept hlater]
      exact h.known (hasked.resolve_right hlater)
  · intro hnone
    rw [not_or] at hnone
    rw [h'.kept hnone.2, h.kept hnone.1]

theorem Leads.congr (h : Leads t asked s s₁) (hiff : later ↔ asked) : Leads t later s s₁ :=
  ⟨h.settled, fun hlater => h.known (hiff.mp hlater), fun hnone => h.kept (mt hiff.mpr hnone)⟩

/-- Events that tell of no profile may be added at any time. -/
theorem Leads.of_record (h : Settled t s) {events : List Event} (hevents : derivations events = []) :
    Leads t False s { s with journal := s.journal ++ events } := by
  refine ⟨⟨h.named, ?_⟩, False.elim, fun _ => rfl⟩
  rw [derivations, List.filterMap_append, ← derivations, ← derivations, hevents, List.append_nil]
  exact h.recorded

/-- A computation has an outcome in every settled session, and asks for the profile or not. -/
def Gives (t : Settings) (x : Run α) (outcome : Except Fault α) (asked : Prop) : Prop :=
  ∀ s, Settled t s → ∃ s', run x t s = (outcome, s') ∧ Leads t asked s s'

private theorem gives_lift (t : Settings) (outcome : Except Fault α) :
    Gives t (liftM outcome) outcome False := by
  intro s hs
  exact ⟨s, run_lift outcome t s, .refl hs⟩

theorem Gives.congr {x : Run α} {outcome : Except Fault α} (h : Gives t x outcome asked)
    (hiff : later ↔ asked) : Gives t x outcome later := by
  intro s hs
  obtain ⟨s₁, hrun, hleads⟩ := h s hs
  exact ⟨s₁, hrun, hleads.congr hiff⟩

theorem Gives.map {x : Run α} {outcome : Except Fault α} (h : Gives t x outcome asked) (f : α → β) :
    Gives t (f <$> x) (f <$> outcome) asked := by
  intro s hs
  obtain ⟨s₁, hrun, hleads⟩ := h s hs
  refine ⟨s₁, ?_, hleads⟩
  rw [map_eq_pure_bind, run_bind, hrun]
  cases outcome <;> rfl

/-- A computation that fails first asks for nothing that would come after. -/
theorem Gives.bind {x : Run α} {outcome : Except Fault α} {f : α → Run β} {g : α → Except Fault β}
    (h : Gives t x outcome asked) (hf : ∀ a, Gives t (f a) (g a) False) :
    Gives t (x >>= f) (outcome >>= g) asked := by
  intro s hs
  obtain ⟨s₁, hrun, hleads⟩ := h s hs
  cases outcome with
  | error fault =>
    refine ⟨s₁, ?_, hleads⟩
    rw [run_bind, hrun]
    rfl
  | ok a =>
    obtain ⟨s₂, hrun', hleads'⟩ := hf a s₁ hleads.settled
    refine ⟨s₂, ?_, (hleads.trans hleads').congr (iff_of_eq (or_false asked)).symm⟩
    rw [run_bind_ok hrun, hrun']
    rfl

/-- In a settled session the profile is the one that the settings name, whether it is derived now or was
derived before. -/
theorem gives_hostProfile (t : Settings) : Gives t hostProfile (configured t) True := by
  intro s hs
  cases hhost : s.host with
  | some p =>
    have hp := hs.named p hhost
    refine ⟨s, ?_, hs, fun _ => ?_, fun h => absurd trivial h⟩
    · rw [run_hostProfile_of_host hhost, hp]
    · rw [hhost, hp]
      rfl
  | none =>
    have hrun := run_hostProfile_of_none hhost t
    rw [← configured] at hrun
    cases hp : configured t with
    | error fault =>
      rw [hp] at hrun
      refine ⟨s, hrun, hs, fun _ => ?_, fun h => absurd trivial h⟩
      rw [hhost, hp]
      rfl
    | ok p =>
      rw [hp] at hrun
      refine ⟨_, hrun, ⟨?_, ?_⟩, fun _ => ?_, fun h => absurd trivial h⟩
      · intro q hq
        cases hq
        exact hp
      · have hnone := hs.recorded
        rw [hhost] at hnone
        rw [derivations, List.filterMap_append, ← derivations, hnone]
        rfl
      · rw [hp]
        rfl

private theorem gives_assemble (t : Settings) (text : String) :
    Gives t (assemble text) (do
      let word ← Instruction.assemble t.strictOperands text
      return (word, ← (← configured t).wordBytes word))
      (∃ word, Instruction.assemble t.strictOperands text = .ok word) := by
  intro s hs
  rw [run_assemble]
  cases hword : Instruction.assemble t.strictOperands text with
  | error fault =>
    refine ⟨s, rfl, (Leads.refl hs).congr ?_⟩
    simp
  | ok word =>
    have hbytes : Gives t (withBytes word) (do return (word, ← (← configured t).wordBytes word)) True :=
      (gives_hostProfile t).bind fun p => (gives_lift t (p.wordBytes word)).map (word, ·)
    obtain ⟨s₁, hrun, hleads⟩ := hbytes s hs
    refine ⟨s₁, hrun, hleads.congr ?_⟩
    simp

private theorem gives_wordOf (t : Settings) (datum : Datum) :
    Gives t (wordOf datum) (Call.wordOn (configured t) datum) (Call.NeedsOrder datum) := by
  have hbytes (bytes : Bytes) : Gives t (wordOf.ofBytes bytes)
      (Call.wordOn.ofBytes (configured t) bytes) (bytes.length = Word.size) := by
    rw [wordOf.ofBytes, Call.wordOn.ofBytes]
    by_cases hlen : bytes.length = Word.size
    · rw [if_neg (not_not.mpr hlen), if_pos hlen]
      have hread := (gives_hostProfile t).bind fun p => gives_lift t (p.numberAt bytes 0 Word.size)
      exact hread.congr (iff_true_intro hlen)
    · rw [if_pos hlen, if_neg hlen]
      have hthrow : Gives t (throw (.wordByteCount bytes.length) : Run Nat)
          (.error (.wordByteCount bytes.length)) False := gives_lift t (.error _)
      exact hthrow.congr (iff_false_intro hlen)
  cases datum with
  | bytes value => exact hbytes value
  | byteArray value => exact hbytes value
  | _ => exact gives_lift t _

private theorem derivations_openEvents (t : Settings) (size : Nat) (c : Chunk) :
    derivations (openEvents t size c) = [] := by
  have htrace (words : List Nat) : derivations (traceEvents 0 words) = [] := by
    rw [derivations, List.filterMap_eq_nil_iff]
    intro event hevent
    obtain ⟨entry, _, rfl⟩ := List.mem_map.mp hevent
    rfl
  rw [openEvents]
  cases t.trace with
  | true => exact htrace c.code.words
  | false => rfl

private theorem gives_openChunk (t : Settings) (data : Bytes) (p : Profile) :
    Gives t (openChunk data (some p)) (Chunk.parse p data) False := by
  intro s hs
  rw [run_openChunk]
  cases Chunk.parse p data with
  | error fault => exact ⟨s, rfl, .refl hs⟩
  | ok c => exact ⟨_, rfl, .of_record hs (derivations_openEvents t data.length c)⟩

/-- One call: it gives what it gives on a machine of the profile that the settings name, and leaves the
session settled. -/
theorem gives_perform (t : Settings) (call : Call) :
    Gives t call.perform (call.answer t.strictOperands (configured t))
      (call.NeedsHost t.strictOperands) := by
  cases call with
  | assemble text => exact (gives_assemble t text).map Answer.assembled
  | encode operation operands =>
    have hencode := (gives_lift t (Operation.ofDatum operation)).bind fun o =>
      gives_lift t (o.encode t.strictOperands operands)
    exact hencode.map Answer.word
  | decode datum =>
    have hdecode := (gives_wordOf t datum).bind fun word => gives_lift t (Instruction.ofWord word)
    exact hdecode.map Answer.instruction
  | disassemble datum =>
    have hdecode := (gives_wordOf t datum).bind fun word => gives_lift t (Instruction.ofWord word)
    have hsame : Instruction.text <$> (Call.wordOn (configured t) datum >>= Instruction.ofWord) =
        Call.wordOn (configured t) datum >>= Instruction.disassemble := by
      rw [map_bind]
      rfl
    have htext := hdecode.map Instruction.text
    rw [hsame] at htext
    exact htext.map Answer.text
  | wordBytes datum =>
    have hbytes := (gives_hostProfile t).bind fun p => gives_lift t (p.datumBytes datum)
    exact hbytes.map Answer.bytes
  | wordAt data offset =>
    have hread := (gives_hostProfile t).bind fun p =>
      gives_lift t (p.numberAt data offset Word.size)
    exact hread.map Answer.word
  | openChunk data profile =>
    cases profile with
    | some p => exact (gives_openChunk t data p).map Answer.opened
    | none =>
      have hopen := (gives_hostProfile t).bind fun p => gives_openChunk t data p
      exact hopen.map Answer.opened
  | array a step => exact (gives_lift t (a.advance step)).map Answer.array
  | edit c step =>
    have hstep := (gives_lift t (c.code.advance step)).map fun (reply, code) =>
      (Chunk.Reply.words reply, { c with code })
    exact hstep.map Answer.edited

theorem Gives.attempt {x : Run α} {outcome : Except Fault α} (h : Gives t x outcome asked) :
    Gives t (attempt x) (.ok outcome) asked := by
  intro s hs
  obtain ⟨s₁, hrun, hleads⟩ := h.map (Except.ok : α → Except Fault α) s hs
  refine ⟨s₁, ?_, hleads⟩
  cases outcome with
  | ok a => exact run_tryCatch_ok hrun
  | error fault => exact (run_tryCatch_error hrun).trans (run_pure ..)

/-- A run of calls, by induction on the calls: the session stays settled, so each call gives what it
gives on its own. -/
theorem gives_performAll (t : Settings) (calls : List Call) :
    Gives t (performAll calls) (.ok (calls.map (·.answer t.strictOperands (configured t))))
      (∃ call ∈ calls, call.NeedsHost t.strictOperands) := by
  induction calls with
  | nil => exact (gives_lift t (.ok [])).congr (by simp)
  | cons call calls ih =>
    intro s hs
    obtain ⟨s₁, hcall, hleads⟩ := (gives_perform t call).attempt s hs
    obtain ⟨s₂, hcalls, hleads'⟩ := ih s₁ hleads.settled
    refine ⟨s₂, ?_, (hleads.trans hleads').congr (List.exists_mem_cons_iff ..)⟩
    rw [performAll, run_bind_ok hcall, run_bind_ok hcalls]
    rfl

end

namespace Call
variable {strict : Bool} {call : Call}

/-- A call that needs the profile fails as the profile does. -/
theorem answer_of_needsHost (h : call.NeedsHost strict) (fault : Fault) :
    call.answer strict (.error fault) = .error fault := by
  have hword {datum : Datum} (h : NeedsOrder datum) : wordOn (.error fault) datum = .error fault := by
    cases datum with
    | bytes value => exact if_pos h
    | byteArray value => exact if_pos h
    | _ => cases h
  cases call with
  | assemble text =>
    obtain ⟨word, hword⟩ := h
    rw [answer, hword]
    rfl
  | decode datum =>
    rw [answer, hword h]
    rfl
  | disassemble datum =>
    rw [answer, hword h]
    rfl
  | wordBytes datum => rfl
  | wordAt data offset => rfl
  | openChunk data profile =>
    cases profile with
    | none => rfl
    | some p => cases h
  | encode operation operands => cases h
  | array a step => cases h
  | edit c step => cases h

/-- What a call gives that does not need the profile is the same with any profile or none. -/
theorem answer_of_not_needsHost (h : ¬ call.NeedsHost strict) (host host' : Except Fault Profile) :
    call.answer strict host = call.answer strict host' := by
  have hword {datum : Datum} (h : ¬ NeedsOrder datum) : wordOn host datum = wordOn host' datum := by
    cases datum with
    | bytes value => exact (if_neg h).trans (if_neg h).symm
    | byteArray value => exact (if_neg h).trans (if_neg h).symm
    | _ => rfl
  cases call with
  | assemble text =>
    cases htext : Instruction.assemble strict text with
    | ok word => exact absurd ⟨word, htext⟩ h
    | error fault =>
      rw [answer, answer, htext]
      rfl
  | decode datum => rw [answer, answer, hword h]
  | disassemble datum => rw [answer, answer, hword h]
  | wordBytes datum => exact absurd trivial h
  | wordAt data offset => exact absurd trivial h
  | openChunk data profile =>
    cases profile with
    | none => exact absurd trivial h
    | some p => rfl
  | encode operation operands => rfl
  | array a step => rfl
  | edit c step => rfl

end Call

private theorem run_derive_configured (t : Settings) (s : Session) :
    (run (derive none) t s).1 = configured t := by
  rw [run_derive_none, ← configured]
  cases configured t <;> rfl

theorem settled_empty (t : Settings) : Settled t {} := by
  refine ⟨?_, rfl⟩
  intro p hp
  cases hp

/-- The profile of this machine over any run of calls. If it can be derived, every call gives what it
gives on a machine of that profile, and the journal tells of the profile once if a call needed it and not
at all otherwise. If it cannot, the calls that need it fail for that reason and nothing is recorded of a
profile, while the others give what they give wherever a profile can be derived. -/
theorem performAll_host (e : Environment) (calls : List Call) :
    let strict := Settings.flag e.strictOperands
    ∃ outcomes s, run (performAll calls) e.settings {} = (.ok outcomes, s) ∧
      (∀ p, (run (derive none) e.settings {}).1 = .ok p →
        outcomes = calls.map (·.answer strict (.ok p)) ∧
        ((∃ call ∈ calls, call.NeedsHost strict) → derivations s.journal = [p]) ∧
        ((¬ ∃ call ∈ calls, call.NeedsHost strict) → derivations s.journal = [])) ∧
      ∀ fault, (run (derive none) e.settings {}).1 = .error fault →
        fault.category = .profile ∧ derivations s.journal = [] ∧ outcomes.length = calls.length ∧
        (∀ (i : Nat) (call : Call), calls[i]? = some call → call.NeedsHost strict →
          outcomes[i]? = some (.error fault)) ∧
        ∀ referenceChunk p, (run (derive none) { e with referenceChunk }.settings {}).1 = .ok p →
          ∃ outcomes' s',
            run (performAll calls) { e with referenceChunk }.settings {} = (.ok outcomes', s') ∧
            ∀ (i : Nat) (call : Call), calls[i]? = some call → ¬ call.NeedsHost strict →
              outcomes[i]? = outcomes'[i]? := by
  intro strict
  have hstrict (referenceChunk : Option String) :
      { e with referenceChunk }.settings.strictOperands = strict := rfl
  obtain ⟨s, hrun, hleads⟩ := gives_performAll e.settings calls {} (settled_empty _)
  rw [hstrict e.referenceChunk] at hrun hleads
  have hrecorded := hleads.settled.recorded
  refine ⟨_, s, hrun, ?_, ?_⟩
  · intro p hp
    rw [run_derive_configured] at hp
    refine ⟨by rw [hp], ?_, ?_⟩
    · intro hneeded
      rw [hrecorded, hleads.known hneeded, hp]
      rfl
    · intro hnone
      rw [hrecorded, hleads.kept hnone]
      rfl
  · intro fault hfault
    rw [run_derive_configured] at hfault
    refine ⟨category_of_named hfault, ?_, List.length_map .., ?_, ?_⟩
    · by_cases hneeded : ∃ call ∈ calls, call.NeedsHost strict
      · rw [hrecorded, hleads.known hneeded, hfault]
        rfl
      · rw [hrecorded, hleads.kept hneeded]
        rfl
    · intro i call hcall hneeds
      rw [List.getElem?_map, hcall, hfault, Option.map_some, Call.answer_of_needsHost hneeds]
    · intro referenceChunk p _
      obtain ⟨s', hrun', _⟩ := gives_performAll { e with referenceChunk }.settings calls {}
        (settled_empty _)
      refine ⟨_, s', hrun', ?_⟩
      intro i call hcall hneeds
      rw [hstrict, List.getElem?_map, List.getElem?_map, hcall, Option.map_some, Option.map_some,
        Call.answer_of_not_needsHost hneeds]

/-- Three calls where a profile can be derived and where none can, and the first of them alone, which
does not need it. -/
theorem performAll_host_return :
    let calls : List Call :=
      [.disassemble (.bytes [0x1f]), .assemble "RETURN 0 1", .wordAt [1, 0, 0, 0] 0]
    (∃ outcomes s, run (performAll calls) ({} : Environment).settings {} = (.ok outcomes, s) ∧
      derivations s.journal = [⟨.little, .four, .eight, 8, 0⟩] ∧
      outcomes[2]? = some (.ok (.word 1))) ∧
    (∃ outcomes s, run (performAll (calls.take 1)) ({} : Environment).settings {} = (.ok outcomes, s) ∧
      derivations s.journal = []) ∧
    ∃ outcomes s fault,
      run (performAll calls) { referenceChunk := some "1b4" : Environment }.settings {} =
        (.ok outcomes, s) ∧
      fault.category = .profile ∧ derivations s.journal = [] ∧
      outcomes = [.error (.wordByteCount 1), .error fault, .error fault] := by
  intro calls
  have hbyte : ¬ Call.NeedsHost false (.disassemble (.bytes [0x1f])) := by
    intro hlen
    cases hlen
  have hword : Call.NeedsHost false (.assemble "RETURN 0 1") := ⟨0x80001f, by decide +kernel⟩
  have hderived : (run (derive none) ({} : Environment).settings {}).1 =
    .ok ⟨.little, .four, .eight, 8, 0⟩ := rfl
  have hrefused : (run (derive none) { referenceChunk := some "1b4" : Environment }.settings {}).1 =
    .error (.referenceNotHex 3) := rfl
  obtain ⟨outcomes, s, hrun, hfound, _⟩ := performAll_host {} calls
  obtain ⟨houtcomes, hrecorded, _⟩ := hfound _ hderived
  refine ⟨?_, ?_, ?_⟩
  · refine ⟨outcomes, s, hrun, hrecorded ⟨_, by simp [calls], hword⟩, ?_⟩
    rw [houtcomes]
    rfl
  · obtain ⟨outcomes, s, hrun, hfound, _⟩ := performAll_host {} (calls.take 1)
    have hnone : ¬ ∃ call ∈ calls.take 1, call.NeedsHost false := by
      intro ⟨call, hcall, hneeds⟩
      cases List.mem_singleton.mp hcall
      exact hbyte hneeds
    exact ⟨outcomes, s, hrun, (hfound _ hderived).2.2 hnone⟩
  · obtain ⟨outcomes', s', hrun', _, hfailed⟩ :=
      performAll_host { referenceChunk := some "1b4" } calls
    obtain ⟨hcategory, hnone, hlength, hneeds, hothers⟩ := hfailed _ hrefused
    obtain ⟨_, _, hagain, hsame⟩ := hothers none _ hderived
    cases hrun.symm.trans hagain
    have h₀ := hsame 0 _ rfl hbyte
    have h₁ := hneeds 1 _ rfl hword
    have h₂ := hneeds 2 (.wordAt [1, 0, 0, 0] 0) rfl trivial
    rw [houtcomes] at h₀
    refine ⟨outcomes', s', .referenceNotHex 3, hrun', hcategory, hnone, ?_⟩
    obtain ⟨o₀, o₁, o₂, rfl⟩ := List.length_eq_three.mp hlength
    cases h₀
    cases h₁
    cases h₂
    rfl

end Session
end LuaBytecode
