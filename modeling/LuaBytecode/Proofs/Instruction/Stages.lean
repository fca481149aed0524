import LuaBytecode.Proofs.Instruction.Ranges
import LuaBytecode.Proofs.Session.Words

/-! The stages of assembling. A text can have many faults at once, each to be found at a stage of its own.
The first stage that finds one decides which fault is reported, and a text in which none does is
assembled. -/
namespace LuaBytecode

namespace Outcome
variable {α β : Type} {x : Except Fault α} {check : Fault → Prop} {checks checks' : List (Fault → Prop)}

/-- The fault that the first of the checks finds that finds any. -/
def First : List (Fault → Prop) → Fault → Prop
  | [], _ => False
  | check :: checks, fault => check fault ∨ (∀ fault', ¬ check fault') ∧ First checks fault

theorem forall_not_first_iff :
    (∀ fault, ¬ First checks fault) ↔ ∀ check ∈ checks, ∀ fault, ¬ check fault := by
  induction checks with
  | nil => simp [First]
  | cons check checks ih =>
    rw [List.forall_mem_cons, ← ih]
    constructor
    · intro h
      have hnone : ∀ fault, ¬ check fault := fun fault hfault => h fault (.inl hfault)
      exact ⟨hnone, fun fault hfault => h fault (.inr ⟨hnone, hfault⟩)⟩
    · rintro ⟨hnone, hrest⟩ fault (hfault | ⟨_, hfault⟩)
      · exact hnone fault hfault
      · exact hrest fault hfault

private theorem first_append_iff {fault : Fault} :
    First (checks ++ checks') fault ↔
      First checks fault ∨ (∀ fault', ¬ First checks fault') ∧ First checks' fault := by
  induction checks with
  | nil => simp [First]
  | cons check checks ih =>
    have hnone : (∀ fault', ¬ First (check :: checks) fault') ↔
        (∀ fault', ¬ check fault') ∧ ∀ fault', ¬ First checks fault' := by
      simp only [forall_not_first_iff, List.forall_mem_cons]
    rw [hnone, List.cons_append, First, First, ih]
    tauto

/-- A computation that makes checks in turn: it gives a result unless one of them finds a fault, and
else the fault of the first that does. -/
def Reports (x : Except Fault α) (checks : List (Fault → Prop)) : Prop :=
  ∀ fault, x = .error fault ↔ First checks fault

namespace Reports

theorem of_check (h : ∀ fault, x = .error fault ↔ check fault) : Reports x [check] := by
  intro fault
  simp [First, h]

theorem of_ok (a : α) : Reports (.ok a) [] := by
  intro fault
  simp [First]

private theorem of_passed (hnone : ∀ fault, ¬ check fault) (h : Reports x checks) :
    Reports x (check :: checks) := by
  intro fault
  rw [h fault, First]
  constructor
  · exact fun hfault => .inr ⟨hnone, hfault⟩
  · rintro (hfault | ⟨_, hfault⟩)
    · exact absurd hfault (hnone fault)
    · exact hfault

private theorem of_found {fault : Fault} (h : ∀ fault', fault = fault' ↔ check fault') :
    Reports (.error fault : Except Fault α) (check :: checks) := by
  intro fault'
  rw [Except.error.injEq, First, h]
  constructor
  · exact .inl
  · rintro (hfault | ⟨hnone, _⟩)
    · exact hfault
    · exact absurd ((h fault).mp rfl) (hnone fault)

/-- The checks of the first part of a computation come before those of the rest. -/
theorem bind {f : α → Except Fault β} (hx : Reports x checks)
    (hf : ∀ a, x = .ok a → Reports (f a) checks') : Reports (x >>= f) (checks ++ checks') := by
  intro fault
  rw [first_append_iff, bind_eq_error_iff, hx fault]
  refine or_congr_right ?_
  cases x with
  | error fault' =>
    have hfound := (hx fault').mp rfl
    constructor
    · rintro ⟨a, ha, _⟩
      cases ha
    · rintro ⟨hnone, _⟩
      exact absurd hfound (hnone fault')
  | ok a =>
    have hnone : ∀ fault', ¬ First checks fault' := fun fault' h => by cases (hx fault').mpr h
    rw [← hf a rfl fault]
    constructor
    · rintro ⟨_, ⟨⟩, hfault⟩
      exact ⟨hnone, hfault⟩
    · rintro ⟨_, hfault⟩
      exact ⟨a, rfl, hfault⟩

private theorem exists_ok_iff (h : Reports x checks) :
    (∃ a, x = .ok a) ↔ ∀ check ∈ checks, ∀ fault, ¬ check fault := by
  rw [← forall_not_first_iff]
  simp only [← h _]
  cases x <;> simp

end Reports
end Outcome

namespace Source
open Outcome

theorem Written.unique {source source' : Source} {text : String} (h : source.Written text)
    (h' : source'.Written text) : source = source' :=
  Except.ok.inj ((parse_of_written h).symm.trans (parse_of_written h'))

/-- The fault of an operand that cannot be read: it is no literal, or one with too many digits. -/
inductive Unread (operand : String) : Fault → Prop where
  | nonNumeric (h : ∀ l : Text.Literal, operand.toList ≠ l.chars) :
      Unread operand (.nonNumericArgument operand)
  | tooLong {l : Text.Literal} (hl : operand.toList = l.chars) (h : 4300 < l.digits.length) :
      Unread operand .tooManyDigits

/-- The fault of the first operand from the left that cannot be read. -/
def FirstUnread (operands : List String) (fault : Fault) : Prop :=
  ∃ before operand after, operands = before ++ operand :: after ∧
    (∀ earlier ∈ before, ∃ value, Denotes earlier value) ∧ Unread operand fault

private theorem operandValue_eq_error_iff {operand : String} {fault : Fault} :
    operandValue operand = .error fault ↔ Unread operand fault := by
  by_cases hliteral : ∃ l : Text.Literal, operand.toList = l.chars
  · obtain ⟨l, hl⟩ := hliteral
    rw [operandValue, Text.isLiteral_iff.mpr ⟨l, hl⟩, if_neg (by simp), hl, Text.literalDigits_chars]
    by_cases hdigits : l.digits.length > Text.maxDigits
    · rw [if_pos hdigits, Except.error.injEq]
      constructor
      · rintro rfl
        exact .tooLong hl hdigits
      · intro h
        cases h with
        | nonNumeric h => exact absurd hl (h l)
        | tooLong => rfl
    · rw [if_neg hdigits]
      constructor
      · intro h
        cases h
      · intro h
        cases h with
        | nonNumeric h => exact absurd hl (h l)
        | @tooLong l' hl' h =>
          have hsame : l.digits.length = l'.digits.length := by
            rw [← Text.literalDigits_chars, ← Text.literalDigits_chars, ← hl, ← hl']
          exact absurd (hsame ▸ h) hdigits
  · have hnot : Text.isLiteral operand.toList = false := by
      rwa [← Bool.not_eq_true, Text.isLiteral_iff]
    rw [operandValue, hnot, if_pos (by decide), Except.error.injEq]
    constructor
    · rintro rfl
      exact .nonNumeric fun l hl => hliteral ⟨l, hl⟩
    · intro h
      cases h with
      | nonNumeric => rfl
      | @tooLong l hl => exact absurd ⟨l, hl⟩ hliteral

private theorem firstUnread_cons_iff {operand : String} {operands : List String} {fault : Fault} :
    FirstUnread (operand :: operands) fault ↔
      Unread operand fault ∨ (∃ value, Denotes operand value) ∧ FirstUnread operands fault := by
  constructor
  · rintro ⟨before, unread, after, heq, hbefore, hunread⟩
    cases before with
    | nil =>
      cases heq
      exact .inl hunread
    | cons first before =>
      cases heq
      rw [List.forall_mem_cons] at hbefore
      exact .inr ⟨hbefore.1, before, unread, after, rfl, hbefore.2, hunread⟩
  · rintro (hunread | ⟨hvalue, before, unread, after, rfl, hbefore, hunread⟩)
    · exact ⟨[], operand, operands, rfl, by simp, hunread⟩
    · exact ⟨operand :: before, unread, after, rfl, List.forall_mem_cons.mpr ⟨hvalue, hbefore⟩, hunread⟩

/-- Operands fail to have values with the fault of the first that has none. -/
theorem operandValues_eq_error_iff {operands : List String} {fault : Fault} :
    operandValues operands = .error fault ↔ FirstUnread operands fault := by
  induction operands with
  | nil =>
    constructor
    · intro h
      cases h
    · rintro ⟨before, operand, after, heq, _⟩
      simp at heq
  | cons operand operands ih =>
    rw [operandValues, bind_eq_error_iff, operandValue_eq_error_iff, firstUnread_cons_iff, ← ih]
    refine or_congr_right ?_
    constructor
    · rintro ⟨value, hvalue, h⟩
      rcases bind_eq_error_iff.mp h with hrest | ⟨values, _, h⟩
      · exact ⟨⟨value, operandValue_eq_ok_iff.mp hvalue⟩, hrest⟩
      · cases h
    · rintro ⟨⟨value, hvalue⟩, hrest⟩
      exact ⟨value, operandValue_eq_ok_iff.mpr hvalue, bind_eq_error_iff.mpr (.inl hrest)⟩

end Source

namespace Operation
open Outcome

/-- The operation of the table that a mnemonic names: it has the upper case of the mnemonic. -/
def Named (o : Operation) (name : String) : Prop := o ∈ all ∧ o.mnemonic = Text.upper name

private theorem upper_mnemonic {o : Operation} (ho : o ∈ all) : Text.upper o.mnemonic = o.mnemonic := by
  revert o
  decide +kernel

theorem ofMnemonic_eq_ok_iff_named {o : Operation} {name : String} :
    ofMnemonic name = .ok o ↔ o.Named name := by
  rw [ofMnemonic_eq_ok_iff]
  constructor
  · exact byMnemonic?_eq_some
  · rintro ⟨ho, hname⟩
    rw [← byMnemonic?_mnemonic ho]
    exact byMnemonic?_congr (by rw [upper_mnemonic ho, hname])

theorem Named.unique {o o' : Operation} {name : String} (h : o.Named name) (h' : o'.Named name) :
    o = o' :=
  Except.ok.inj ((ofMnemonic_eq_ok_iff_named.mpr h).symm.trans (ofMnemonic_eq_ok_iff_named.mpr h'))

private theorem ofMnemonic_eq_error_iff {name : String} {fault : Fault} :
    ofMnemonic name = .error fault ↔
      (∀ o : Operation, ¬ o.Named name) ∧ fault = .unknownMnemonic name := by
  simp only [← ofMnemonic_eq_ok_iff_named]
  rw [ofMnemonic]
  cases Registry.standard.byMnemonic? name <;> simp [eq_comm]

theorem lt_bound_of_encode {o : Operation} (ho : o ∈ all) {strict : Bool} {values : List Int}
    {word : Nat} (h : o.encode strict (values.map .int) = .ok word) : word < Word.bound := by
  have hlen := length_of_encode_eq_ok h
  rw [List.length_map] at hlen
  rw [← ((encode_int_eq_ok_iff hlen).mp h).1]
  exact pack_lt ho hlen

end Operation

/-- A word that holds an operation with as much of each value as its field keeps, and nothing else. -/
structure Operation.Holds (o : Operation) (values : List Int) (word : Nat) : Prop where
  length_eq : values.length = o.fields.length
  exists_ofWord : ∃ operands, Instruction.ofWord word = .ok ⟨o, operands⟩ ∧
    List.Forall₂ (fun pair operand => pair.1.Keeps pair.2 operand) (o.fields.zip values) operands
  and_mask : word &&& o.mask = word

theorem Operation.holds_of_encode {o : Operation} {strict : Bool} {values : List Int} {word : Nat}
    (ho : o ∈ all) (h : o.encode strict (values.map .int) = .ok word) : o.Holds values word := by
  have hlen := length_of_encode_eq_ok h
  rw [List.length_map] at hlen
  obtain ⟨rfl, _⟩ := (encode_int_eq_ok_iff hlen).mp h
  exact ⟨hlen, ⟨_, Instruction.ofWord_pack ho values, forall₂_keeps_read_pack hlen⟩, pack_and_mask hlen⟩

/-- A text that is assembled has the form of an instruction, and its word is the one encoded from it. -/
theorem Instruction.exists_of_assemble {strict : Bool} {text : String} {word : Nat}
    (h : assemble strict text = .ok word) :
    ∃ (source : Source) (o : Operation) (values : List Int), source.Written text ∧
      o.Named source.mnemonic ∧ List.Forall₂ Source.Denotes source.operands values ∧
      o.encode strict (values.map .int) = .ok word := by
  obtain ⟨source, hparse, h⟩ := Outcome.bind_eq_ok_iff.mp h
  obtain ⟨o, ho, h⟩ := Outcome.bind_eq_ok_iff.mp h
  obtain ⟨values, hvalues, h⟩ := Outcome.bind_eq_ok_iff.mp h
  exact ⟨source, o, values, Source.written_of_parse hparse, Operation.ofMnemonic_eq_ok_iff_named.mp ho,
    Source.operandValues_eq_ok_iff.mp hvalues, h⟩

private theorem Instruction.lt_bound_of_assemble {strict : Bool} {text : String} {word : Nat}
    (h : assemble strict text = .ok word) : word < Word.bound := by
  obtain ⟨_, _, _, _, ho, _, hword⟩ := exists_of_assemble h
  exact Operation.lt_bound_of_encode ho.1 hword

namespace Session
open Outcome
variable {t : Settings} {s : Session} {text : String}
variable {source : Source} {o : Operation} {values : List Int}

/-- The stages of assembling a text. -/
inductive Stage where
  | form | mnemonic | operands | count | range | host
  deriving DecidableEq, Repr

namespace Stage

/-- The stages in their order. -/
def all : List Stage := [.form, .mnemonic, .operands, .count, .range, .host]

/-- The categories of the faults of a stage. -/
def categories : Stage → List Category
  | .form => [.malformed]
  | .mnemonic => [.unknownMnemonic]
  | .operands => [.nonNumeric, .value]
  | .count => [.argumentCount]
  | .range => [.operandRange]
  | .host => [.profile]

/-- What there is to be found at each stage, whatever there is at the others. -/
inductive Finds (t : Settings) (s : Session) (text : String) : Stage → Fault → Prop where
  | form (h : ∀ source : Source, ¬ source.Written text) :
      Finds t s text .form (.malformedInstruction text)
  | mnemonic {source : Source} (hsource : source.Written text)
      (h : ∀ o : Operation, ¬ o.Named source.mnemonic) :
      Finds t s text .mnemonic (.unknownMnemonic source.mnemonic)
  | operands {source : Source} {fault : Fault} (hsource : source.Written text)
      (h : Source.FirstUnread source.operands fault) : Finds t s text .operands fault
  | count {source : Source} {o : Operation} (hsource : source.Written text)
      (ho : o.Named source.mnemonic) (h : source.operands.length ≠ o.fields.length) :
      Finds t s text .count
        (.argumentCount o.mnemonic o.layout.name o.fields.length source.operands.length)
  | range {source : Source} {o : Operation} {values : List Int} {f : Field} {value : Int}
      (hstrict : t.strictOperands = true) (hsource : source.Written text) (ho : o.Named source.mnemonic)
      (hvalues : List.Forall₂ Source.Denotes source.operands values)
      (h : Operation.misfit? o.fields values = some (f, value)) :
      Finds t s text .range (.operandOutOfRange f.name o.mnemonic (.int value) f.range.1 f.range.2)
  | host {fault : Fault} (hunknown : s.host = none)
      (h : (reference t >>= Profile.ofHeader) = .error fault) : Finds t s text .host fault

theorem mem_all (stage : Stage) : stage ∈ all := by
  cases stage <;> decide

private theorem reports_form (t : Settings) (s : Session) (text : String) :
    Reports (Source.parse text) [Finds t s text .form] := by
  refine .of_check fun fault => ?_
  constructor
  · intro h
    have hnone : ∀ source : Source, ¬ source.Written text := by
      intro source hsource
      rw [Source.parse_of_written hsource] at h
      cases h
    rcases Source.parse_cases text with ⟨source, hparse⟩ | hparse
    · exact absurd (Source.written_of_parse hparse) (hnone source)
    · rw [hparse] at h
      cases h
      exact .form hnone
  · rintro ⟨hnone⟩
    exact (Source.parse_cases text).resolve_left fun ⟨source, hparse⟩ =>
      hnone source (Source.written_of_parse hparse)

private theorem reports_mnemonic (hsource : source.Written text) (t : Settings) (s : Session) :
    Reports (Operation.ofMnemonic source.mnemonic) [Finds t s text .mnemonic] := by
  refine .of_check fun fault => ?_
  rw [Operation.ofMnemonic_eq_error_iff]
  constructor
  · rintro ⟨hnone, rfl⟩
    exact .mnemonic hsource hnone
  · intro h
    cases h with
    | mnemonic hsource' hnone =>
      cases hsource.unique hsource'
      exact ⟨hnone, rfl⟩

private theorem reports_operands (hsource : source.Written text) (t : Settings) (s : Session) :
    Reports (Source.operandValues source.operands) [Finds t s text .operands] := by
  refine .of_check fun fault => ?_
  rw [Source.operandValues_eq_error_iff]
  constructor
  · exact .operands hsource
  · intro h
    cases h with
    | operands hsource' hunread =>
      cases hsource.unique hsource'
      exact hunread

private theorem reports_range (hsource : source.Written text) (ho : o.Named source.mnemonic)
    (hvalues : List.Forall₂ Source.Denotes source.operands values) (t : Settings) (s : Session)
    (word : Nat) :
    Reports (Operation.ifFits t.strictOperands o.mnemonic o.fields values word)
      [Finds t s text .range] := by
  refine .of_check fun fault => ?_
  constructor
  · intro h
    cases hstrict : t.strictOperands with
    | false =>
      rw [hstrict] at h
      cases h
    | true =>
      cases hmisfit : Operation.misfit? o.fields values with
      | none =>
        rw [Operation.ifFits_eq_ok_iff.mpr ⟨rfl, fun _ => hmisfit⟩] at h
        cases h
      | some pair =>
        rw [hstrict, Operation.ifFits_misfit hmisfit] at h
        cases h
        exact .range hstrict hsource ho hvalues hmisfit
  · intro h
    cases h with
    | range hstrict hsource' ho' hvalues' hmisfit =>
      cases hsource.unique hsource'
      cases ho.unique ho'
      have hsame := (Source.operandValues_eq_ok_iff.mpr hvalues).symm.trans
        (Source.operandValues_eq_ok_iff.mpr hvalues')
      cases hsame
      rw [hstrict, Operation.ifFits_misfit hmisfit]

private theorem reports_encode (hsource : source.Written text) (ho : o.Named source.mnemonic)
    (hvalues : List.Forall₂ Source.Denotes source.operands values) (t : Settings) (s : Session) :
    Reports (o.encode t.strictOperands (values.map .int))
      [Finds t s text .count, Finds t s text .range] := by
  have hlen : (values.map Datum.int).length = source.operands.length := by
    rw [List.length_map, hvalues.length_eq]
  -- with a value for each field only their ranges can be at fault, else nothing but their number
  by_cases hcount : source.operands.length = o.fields.length
  · have hlen' : values.length = o.fields.length := by rw [← hcount, hvalues.length_eq]
    rw [Operation.encode_int _ hlen']
    refine .of_passed ?_ (reports_range hsource ho hvalues t s _)
    intro fault h
    cases h with
    | count hsource' ho' hne =>
      cases hsource.unique hsource'
      cases ho.unique ho'
      exact hne hcount
  · rw [Operation.encode_of_length_ne (by rwa [hlen]), hlen]
    refine .of_found fun fault => ?_
    constructor
    · rintro rfl
      exact .count hsource ho hcount
    · intro h
      cases h with
      | count hsource' ho' =>
        cases hsource.unique hsource'
        cases ho.unique ho'
        rfl

private theorem reports_host (t : Settings) (s : Session) (text : String) :
    Reports (run hostProfile t s).1 [Finds t s text .host] := by
  refine .of_check fun fault => ?_
  cases hhost : s.host with
  | some p =>
    rw [run_hostProfile_of_host hhost]
    constructor
    · intro h
      cases h
    · intro h
      cases h with
      | host hunknown =>
        rw [hhost] at hunknown
        cases hunknown
  | none =>
    have hfault : (run hostProfile t s).1 = .error fault ↔
        (reference t >>= Profile.ofHeader) = .error fault := by
      rw [run_hostProfile_of_none hhost]
      cases reference t >>= Profile.ofHeader <;> rfl
    rw [hfault]
    constructor
    · exact .host hhost
    · intro h
      cases h with
      | host _ h => exact h

private theorem category_of_finds {stage : Stage} {fault : Fault} (h : stage.Finds t s text fault) :
    fault.category ∈ stage.categories := by
  cases h with
  | operands hsource h =>
    obtain ⟨_, _, _, _, _, hunread⟩ := h
    cases hunread with
    | nonNumeric => exact List.mem_cons_self
    | tooLong => exact List.mem_cons_of_mem _ (List.mem_singleton_self _)
  | host hunknown h =>
    have hrun := (reports_host t s text fault).mpr (.inl (.host hunknown h))
    exact List.mem_singleton.mpr (category_of_run_hostProfile hrun)
  | range _ _ _ hvalues h =>
    have hshort := Source.natAbs_lt_of_denotes hvalues _ (Operation.mem_of_misfit? h)
    exact List.mem_singleton.mpr (Fault.category_of_isWorded (Fault.isWorded_operandOutOfRange hshort ..))
  | _ => exact List.mem_singleton_self _

end Stage

private theorem outcome_withBytes (word : Nat) (t : Settings) (s : Session) :
    (run (withBytes word) t s).1 = do
      let p ← (run hostProfile t s).1
      return (word, ← p.wordBytes word) := by
  rw [withBytes, run_bind]
  rcases run hostProfile t s with ⟨fault | p, s₁⟩
  · rfl
  · dsimp only
    rw [run_bind, run_lift, ok_bind]
    cases p.wordBytes word <;> rfl

/-- The stages in which a text is assembled. -/
theorem outcome_assemble (text : String) (t : Settings) (s : Session) :
    (run (assemble text) t s).1 = do
      let source ← Source.parse text
      let o ← Operation.ofMnemonic source.mnemonic
      let values ← Source.operandValues source.operands
      let word ← o.encode t.strictOperands (values.map .int)
      let p ← (run hostProfile t s).1
      return (word, ← p.wordBytes word) := by
  have hbytes : (run (assemble text) t s).1 =
      Instruction.assemble t.strictOperands text >>= fun word => (run (withBytes word) t s).1 := by
    rw [run_assemble]
    cases Instruction.assemble t.strictOperands text <;> rfl
  simp only [hbytes, outcome_withBytes, Instruction.assemble, bind_assoc]

/-- Assembling reports what the first stage finds that finds a fault. -/
theorem reports_assemble (text : String) (t : Settings) (s : Session) :
    Reports (run (assemble text) t s).1 (Stage.all.map (Stage.Finds t s text)) := by
  rw [outcome_assemble]
  -- what one stage has read is what the next stages look at: the source, its operation, its values
  refine (Stage.reports_form t s text).bind fun source hparse => ?_
  have hsource := Source.written_of_parse hparse
  refine (Stage.reports_mnemonic hsource t s).bind fun o ho => ?_
  have ho := Operation.ofMnemonic_eq_ok_iff_named.mp ho
  refine (Stage.reports_operands hsource t s).bind fun values hvalues => ?_
  have hvalues := Source.operandValues_eq_ok_iff.mp hvalues
  refine (Stage.reports_encode hsource ho hvalues t s).bind fun word hword => ?_
  refine (Stage.reports_host t s text).bind fun p _ => ?_
  rw [p.wordBytes_eq (Operation.lt_bound_of_encode ho.1 hword)]
  exact .of_ok _

/-- Of all the faults of a text the first stage that finds one reports it, with a fault of its own
category; there is at least one operand where their number is at fault. A text in which no stage finds a
fault is assembled to a word and the bytes that the profile of this machine has for it. The word holds
the operation that the text names with the values that its operands denote. -/
theorem assemble_first_fault (e : Environment) (s : Session) (text : String) :
    let finds := Stage.Finds e.settings s text
    let outcome := (run (assemble text) e.settings s).1
    (∀ fault, outcome = .error fault ↔ First (Stage.all.map finds) fault) ∧
    (∀ stage fault, finds stage fault → fault.category ∈ stage.categories) ∧
    (∀ mnemonic layout expected actual,
      finds .count (.argumentCount mnemonic layout expected actual) → 1 ≤ actual) ∧
    ((∀ stage fault, ¬ finds stage fault) ↔
      ∃ p s₁ word bytes, run hostProfile e.settings s = (.ok p, s₁) ∧
        run (assemble text) e.settings s = (.ok (word, bytes), s₁) ∧
        word < 2 ^ 32 ∧ p.datumBytes (.int word) = .ok bytes) ∧
    ∀ word bytes s₁, run (assemble text) e.settings s = (.ok (word, bytes), s₁) →
      ∃ (source : Source) (o : Operation) (values : List Int), source.Written text ∧
        o.Named source.mnemonic ∧ List.Forall₂ Source.Denotes source.operands values ∧
        o.Holds values word := by
  intro finds outcome
  have hreports : Reports outcome (Stage.all.map finds) := reports_assemble text e.settings s
  refine ⟨hreports, fun stage fault => Stage.category_of_finds, ?_, ?_, ?_⟩
  · intro mnemonic layout expected actual h
    cases h with
    | count hsource => exact List.length_pos_iff.mpr hsource.operands_ne_nil
  · have hall : (∀ stage fault, ¬ finds stage fault) ↔ ∃ result, outcome = .ok result := by
      rw [hreports.exists_ok_iff, List.forall_mem_map]
      exact ⟨fun h stage _ => h stage, fun h stage => h stage stage.mem_all⟩
    rw [hall]
    constructor
    · rintro ⟨⟨word, bytes⟩, hresult⟩
      have hrun : run (assemble text) e.settings s =
          (.ok (word, bytes), (run (assemble text) e.settings s).2) := Prod.ext hresult rfl
      obtain ⟨hassemble, p, hp, hbytes⟩ := run_assemble_eq_ok_iff.mp hrun
      have hlt := Instruction.lt_bound_of_assemble hassemble
      refine ⟨p, _, word, bytes, hp, hrun, hlt, ?_⟩
      rw [p.datumBytes_natCast hlt, ← hbytes, p.wordBytes_eq hlt]
    · rintro ⟨_, _, word, bytes, _, hrun, _⟩
      exact ⟨(word, bytes), congrArg Prod.fst hrun⟩
  · intro word bytes s₁ hrun
    obtain ⟨source, o, values, hsource, ho, hvalues, hword⟩ :=
      Instruction.exists_of_assemble (run_assemble_eq_ok_iff.mp hrun).1
    exact ⟨source, o, values, hsource, ho, hvalues, Operation.holds_of_encode ho.1 hword⟩

/-- A text with an operand too many, the first of them out of range and the last no number, on a machine
that cannot be told: of the three faults that are there to be found the operand that is no number is
reported. Without any the text is assembled, to a word with the operands as they are written. -/
theorem assemble_first_fault_move :
    let e : Environment := ⟨none, some "1", some "1b4"⟩
    let finds := Stage.Finds e.settings {} "move 256 0 x"
    finds .operands (.nonNumericArgument "x") ∧ finds .count (.argumentCount "MOVE" "iAB" 2 3) ∧
    finds .host (.referenceNotHex 3) ∧
    (run (assemble "move 256 0 x") e.settings {}).1 = .error (.nonNumericArgument "x") ∧
    (∀ stage fault, ¬ Stage.Finds (Environment.mk none none none).settings {} "move 255 0" stage fault) ∧
    ∃ o : Operation, o.Named "move" ∧ o.Holds [255, 0] 0x3fc0 := by
  intro e finds
  have hsource : Source.Written ⟨"move", ["256", "0", "x"]⟩ "move 256 0 x" :=
    Source.written_of_parse (by decide +kernel)
  have ho : Operation.Named ⟨0, "MOVE", .ab⟩ "move" :=
    Operation.ofMnemonic_eq_ok_iff_named.mp (by decide +kernel)
  have hform (fault : Fault) : ¬ finds .form fault := by
    rintro ⟨h⟩
    exact h _ hsource
  have hmnemonic (fault : Fault) : ¬ finds .mnemonic fault := by
    intro h
    cases h with
    | mnemonic hsource' hnone =>
      cases hsource.unique hsource'
      exact hnone _ ho
  have hoperands : finds .operands (.nonNumericArgument "x") :=
    .operands hsource (Source.operandValues_eq_error_iff.mp (by decide +kernel))
  have hrun : run (assemble "move 255 0") (Environment.mk none none none).settings {} =
      (.ok (0x3fc0, [0xc0, 0x3f, 0x00, 0x00]),
        (run hostProfile (Environment.mk none none none).settings {}).2) := by
    decide +kernel
  refine ⟨hoperands, .count hsource ho (by decide), .host rfl (by decide +kernel), ?_, ?_, ?_⟩
  · exact ((assemble_first_fault e {} _).1 _).mpr (.inr ⟨hform, .inr ⟨hmnemonic, .inl hoperands⟩⟩)
  · exact (assemble_first_fault _ {} _).2.2.2.1.mpr
      ⟨_, _, 0x3fc0, [0xc0, 0x3f, 0x00, 0x00], rfl, hrun, by decide, rfl⟩
  · obtain ⟨source, o, values, hsource', ho', hvalues, hholds⟩ :=
      (assemble_first_fault _ {} _).2.2.2.2 _ _ _ hrun
    have hwritten : Source.Written ⟨"move", ["255", "0"]⟩ "move 255 0" :=
      Source.written_of_parse (by decide +kernel)
    cases hwritten.unique hsource'
    have hvalues' : Source.operandValues ["255", "0"] = .ok [255, 0] := by decide +kernel
    rw [Source.operandValues_eq_ok_iff.mpr hvalues] at hvalues'
    cases hvalues'
    exact ⟨o, ho', hholds⟩

end Session
end LuaBytecode
