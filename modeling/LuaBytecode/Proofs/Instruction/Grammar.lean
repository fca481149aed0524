import LuaBytecode.Instruction.Source
import LuaBytecode.Proofs.Text.Blank

/-! The grammar of instructions as text: tokens with gaps between them, and any blanks at the ends. A
text is read exactly if it is of this form, as the tokens it is made of, and is malformed otherwise. -/
namespace LuaBytecode.Source

/-- What can stand as a token: at least one character, and no blank among them. -/
def IsToken (token : List Char) : Prop := token ≠ [] ∧ ∀ c ∈ token, Text.isBlank c = false

/-- What can stand between two tokens: at least one character, and only spaces, tabs, form feeds,
returns and line feeds. -/
def IsSpacing (gap : List Char) : Prop :=
  gap ≠ [] ∧ ∀ c ∈ gap, c ∈ [' ', '\t', '\x0c', '\r', '\n']

/-- Tokens in a row, with a gap between each and the next. -/
inductive Spaced : List (List Char) → List Char → Prop where
  | single {token : List Char} (htoken : IsToken token) : Spaced [token] token
  | cons {token gap body : List Char} {rest : List (List Char)} (htoken : IsToken token)
      (hgap : IsSpacing gap) (hbody : Spaced rest body) : Spaced (token :: rest) (token ++ gap ++ body)

/-- A text writes an instruction: a mnemonic and one or more operands in a row, between any blanks. -/
structure Written (source : Source) (text : String) : Prop where
  operands_ne_nil : source.operands ≠ []
  exists_body : ∃ front body back, (∀ c ∈ front, Text.isBlank c = true) ∧
    (∀ c ∈ back, Text.isBlank c = true) ∧
    Spaced ((source.mnemonic :: source.operands).map String.toList) body ∧
    text.toList = front ++ body ++ back

theorem isGap_iff {c : Char} : isGap c = true ↔ c ∈ [' ', '\t', '\x0c', '\r', '\n'] := by
  simp [isGap, or_assoc]

theorem isBlank_of_isGap {c : Char} (h : isGap c = true) : Text.isBlank c = true := by
  simp only [isGap, Bool.or_eq_true, beq_iff_eq] at h
  rcases h with (((rfl | rfl) | rfl) | rfl) | rfl <;> decide

theorem isGap_of_isBlank {c : Char} (h : Text.isBlank c = false) : isGap c = false := by
  by_contra hgap
  rw [Bool.not_eq_false] at hgap
  have hblank := isBlank_of_isGap hgap
  rw [h] at hblank
  cases hblank

/-! Reading: the tokens of a row are the tokens that it was made of. -/

private theorem tokens_gap {g : Char} {rest : List Char} (hg : isGap g = true) :
    tokens (g :: rest) = tokens rest := by
  rw [tokens.eq_def]
  simp only [hg, if_true]

/-- A token ends before a gap. -/
theorem tokens_cons_gap {c g : Char} {rest : List Char} (hc : isGap c = false) (hg : isGap g = true) :
    tokens (c :: g :: rest) = [c] :: tokens (g :: rest) := by
  rw [tokens]
  simp only [hc, hg, Bool.false_eq_true, if_false, if_true]

/-- A token goes on where there is no gap. -/
theorem tokens_cons_cons {c d : Char} {rest token : List Char} {ts : List (List Char)}
    (hc : isGap c = false) (hd : isGap d = false) (h : tokens (d :: rest) = token :: ts) :
    tokens (c :: d :: rest) = (c :: token) :: ts := by
  rw [tokens]
  simp only [hc, hd, Bool.false_eq_true, if_false, h]

private theorem tokens_spacing {gap : List Char} (hgap : ∀ c ∈ gap, isGap c = true) (rest : List Char) :
    tokens (gap ++ rest) = tokens rest := by
  induction gap with
  | nil => rfl
  | cons g gap ih =>
    rw [List.forall_mem_cons] at hgap
    rw [List.cons_append, tokens_gap hgap.1, ih hgap.2]

/-- A token reaches up to the next gap or the end. -/
theorem tokens_append {token rest : List Char} (h : IsToken token)
    (hrest : ∀ g ∈ rest.head?, isGap g = true) :
    tokens (token ++ rest) = token :: tokens rest := by
  induction token with
  | nil => exact absurd rfl h.1
  | cons c token ih =>
    have hc : isGap c = false := isGap_of_isBlank (h.2 c (List.mem_cons_self ..))
    cases token with
    | nil =>
      cases rest with
      | nil => simp [tokens, hc]
      | cons g rest => exact tokens_cons_gap hc (hrest g rfl)
    | cons d token =>
      have htail : IsToken (d :: token) := ⟨by simp, fun x hx => h.2 x (List.mem_cons_of_mem c hx)⟩
      have hd : isGap d = false := isGap_of_isBlank (htail.2 d (List.mem_cons_self ..))
      exact tokens_cons_cons hc hd (ih htail)

namespace Spaced

private theorem tokens_eq {ts : List (List Char)} {body : List Char} (h : Spaced ts body) :
    tokens body = ts := by
  induction h with
  | @single token htoken =>
    have hself := @tokens_append token [] htoken (by simp)
    simpa [tokens] using hself
  | @cons token gap body rest htoken hgap hbody ih =>
    have hchars : ∀ c ∈ gap, isGap c = true := fun c hc => isGap_iff.mpr (hgap.2 c hc)
    have hhead : ∀ g ∈ (gap ++ body).head?, isGap g = true := by
      intro g hg
      rw [List.head?_append_of_ne_nil gap hgap.1] at hg
      exact hchars g (List.mem_of_mem_head? hg)
    rw [List.append_assoc, tokens_append htoken hhead, tokens_spacing hchars, ih]

theorem ne_nil {ts : List (List Char)} {body : List Char} (h : Spaced ts body) : body ≠ [] := by
  cases h with
  | single htoken => exact htoken.1
  | cons htoken => simp [htoken.1]

private theorem tokens_ne_nil {ts : List (List Char)} {body : List Char} (h : Spaced ts body) :
    ts ≠ [] := by
  cases h <;> simp

theorem isBlank_of_head? {ts : List (List Char)} {body : List Char} (h : Spaced ts body) {c : Char}
    (hc : c ∈ body.head?) : Text.isBlank c = false := by
  cases h with
  | single htoken => exact htoken.2 c (List.mem_of_mem_head? hc)
  | cons htoken =>
    rw [List.append_assoc, List.head?_append_of_ne_nil _ htoken.1] at hc
    exact htoken.2 c (List.mem_of_mem_head? hc)

theorem isBlank_of_getLast? {ts : List (List Char)} {body : List Char} (h : Spaced ts body)
    {c : Char} (hc : c ∈ body.getLast?) : Text.isBlank c = false := by
  induction h with
  | single htoken => exact htoken.2 c (List.mem_of_getLast? hc)
  | cons _ _ hbody ih =>
    rw [List.getLast?_append_of_ne_nil _ hbody.ne_nil] at hc
    exact ih hc

/-- A blank in a row of tokens is a gap character. -/
theorem isGap_of_mem {ts : List (List Char)} {body : List Char} (h : Spaced ts body) {c : Char}
    (hc : c ∈ body) (hblank : Text.isBlank c = true) : isGap c = true := by
  have hno {token : List Char} (htoken : IsToken token) : c ∉ token := by
    intro hmem
    rw [htoken.2 c hmem] at hblank
    cases hblank
  induction h with
  | single htoken => exact absurd hc (hno htoken)
  | cons htoken hgap _ ih =>
    rw [List.mem_append, List.mem_append] at hc
    rcases hc with (hc | hc) | hc
    · exact absurd hc (hno htoken)
    · exact isGap_iff.mpr (hgap.2 c hc)
    · exact ih hc

/-- The first token of a row can be made longer at the front. -/
theorem cons_char {token body : List Char} {rest : List (List Char)} (h : Spaced (token :: rest) body)
    {c : Char} (hc : Text.isBlank c = false) : Spaced ((c :: token) :: rest) (c :: body) := by
  have hlonger {token : List Char} (htoken : IsToken token) : IsToken (c :: token) :=
    ⟨by simp, List.forall_mem_cons.mpr ⟨hc, htoken.2⟩⟩
  cases h with
  | single htoken => exact .single (hlonger htoken)
  | cons htoken hgap hbody => exact .cons (hlonger htoken) hgap hbody

end Spaced

/-! Splitting: characters whose blanks are all gap characters are a row of tokens. -/

/-- Whatever ends with a token is a row of tokens, after gap characters if there are any. -/
private theorem exists_spaced_tokens {cs : List Char} (hne : cs ≠ [])
    (hgaps : ∀ c ∈ cs, Text.isBlank c = true → isGap c = true)
    (hlast : ∀ c ∈ cs.getLast?, Text.isBlank c = false) :
    ∃ gap body, (∀ c ∈ gap, isGap c = true) ∧ cs = gap ++ body ∧ Spaced (tokens cs) body := by
  induction cs with
  | nil => exact absurd rfl hne
  | cons c cs ih =>
    rw [List.forall_mem_cons] at hgaps
    cases cs with
    | nil =>
      have hc : Text.isBlank c = false := hlast c rfl
      refine ⟨[], [c], by simp, rfl, ?_⟩
      simp only [tokens, isGap_of_isBlank hc]
      exact .single ⟨by simp, by simpa using hc⟩
    | cons d cs =>
      rw [List.getLast?_cons_cons] at hlast
      obtain ⟨gap, body, hgap, heq, hbody⟩ := ih (by simp) hgaps.2 hlast
      by_cases hc : isGap c = true
      · refine ⟨c :: gap, body, List.forall_mem_cons.mpr ⟨hc, hgap⟩, congrArg (c :: ·) heq, ?_⟩
        rwa [tokens_gap hc]
      · have hblank : Text.isBlank c = false := by
          by_contra h
          exact hc (hgaps.1 (Bool.not_eq_false _ ▸ h))
        rw [Bool.not_eq_true] at hc
        refine ⟨[], c :: d :: cs, by simp, rfl, ?_⟩
        cases gap with
        | nil =>
          -- the next character starts a token, which this one makes longer
          rw [List.nil_append] at heq
          rw [← heq] at hbody
          have hd : isGap d = false := isGap_of_isBlank (hbody.isBlank_of_head? rfl)
          obtain ⟨token, ts, hts⟩ := List.exists_cons_of_ne_nil hbody.tokens_ne_nil
          rw [tokens_cons_cons hc hd hts]
          exact (hts ▸ hbody).cons_char hblank
        | cons g gap =>
          -- the next character starts a gap, so that this one is a token
          obtain ⟨rfl, hcs⟩ := List.cons.inj heq
          have hd : isGap d = true := hgap d (List.mem_cons_self ..)
          have hspacing : IsSpacing (d :: gap) := ⟨by simp, fun x hx => isGap_iff.mp (hgap x hx)⟩
          have htoken : IsToken [c] := ⟨by simp, by simpa using hblank⟩
          have hrow := Spaced.cons htoken hspacing hbody
          rw [List.append_assoc, ← heq] at hrow
          rwa [tokens_cons_gap hc hd]

/-- Characters whose blanks are all gap characters, none of them at the ends, are their tokens in a
row. -/
theorem spaced_tokens {cs : List Char} (hne : cs ≠ [])
    (hgaps : ∀ c ∈ cs, Text.isBlank c = true → isGap c = true)
    (hfirst : ∀ c ∈ cs.head?, Text.isBlank c = false)
    (hlast : ∀ c ∈ cs.getLast?, Text.isBlank c = false) : Spaced (tokens cs) cs := by
  obtain ⟨gap, body, hgap, heq, hbody⟩ := exists_spaced_tokens hne hgaps hlast
  cases gap with
  | nil =>
    rw [List.nil_append] at heq
    rwa [← heq] at hbody
  | cons g gap =>
    have hg := isBlank_of_isGap (hgap g (List.mem_cons_self ..))
    rw [hfirst g (by rw [heq]; rfl)] at hg
    cases hg

/-! Reading a text. -/

theorem parse_of_written {source : Source} {text : String} (h : source.Written text) :
    parse text = .ok source := by
  obtain ⟨hoperands, front, body, back, hfront, hback, hbody, htext⟩ := h
  have htrim : Text.trim text.toList = body := by
    rw [htext]
    exact Text.trim_append hbody.ne_nil hfront hback (fun c => hbody.isBlank_of_head?)
      (fun c => hbody.isBlank_of_getLast?)
  have hblanks : body.any (fun c => Text.isBlank c && !isGap c) = false := by
    rw [List.any_eq_false]
    intro c hc
    cases hblank : Text.isBlank c with
    | false => simp
    | true => simp [hbody.isGap_of_mem hc hblank]
  have htokens := hbody.tokens_eq
  obtain ⟨operand, operands, hcons⟩ := List.exists_cons_of_ne_nil hoperands
  obtain ⟨mnemonic, _⟩ := source
  dsimp only at hcons
  subst hcons
  rw [parse]
  simp only [htrim, hblanks, htokens, Bool.false_eq_true, if_false, List.map_cons, List.map_map]
  simp [Function.comp_def]

theorem written_of_parse {source : Source} {text : String} (h : parse text = .ok source) :
    source.Written text := by
  rw [parse] at h
  split at h
  · cases h
  rename_i hblanks
  rw [Bool.not_eq_true, List.any_eq_false] at hblanks
  split at h
  · rename_i mnemonic operand operands htokens
    cases h
    have hne : Text.trim text.toList ≠ [] := by
      intro hnil
      rw [hnil] at htokens
      cases htokens
    have hgaps : ∀ c ∈ Text.trim text.toList, Text.isBlank c = true → isGap c = true := by
      intro c hc hblank
      have hgap := hblanks c hc
      simpa [hblank] using hgap
    have hrow := spaced_tokens hne hgaps (fun c => Text.isBlank_of_head?_trim)
      (fun c => Text.isBlank_of_getLast?_trim)
    obtain ⟨front, back, hfront, hback, htext⟩ := Text.exists_eq_append_trim text.toList
    refine ⟨by simp, front, _, back, hfront, hback, ?_, htext⟩
    simpa [htokens, Function.comp_def] using hrow
  · cases h

theorem parse_eq_ok_iff {source : Source} {text : String} :
    parse text = .ok source ↔ source.Written text := ⟨written_of_parse, parse_of_written⟩

/-- The one way in which a text can fail to be read, with the whole text in the fault. -/
theorem parse_cases (text : String) :
    (∃ source, parse text = .ok source) ∨ parse text = .error (.malformedInstruction text) := by
  rw [parse]
  split
  · exact .inr rfl
  split
  · exact .inl ⟨_, rfl⟩
  · exact .inr rfl

/-- A text is read as an instruction exactly if it writes that instruction. It writes at most one; and
a text that writes none is malformed, for which the fault quotes it as it was given, blanks
included. -/
theorem parse_grammar (text : String) :
    (∀ source, parse text = .ok source ↔ source.Written text) ∧
    (∀ source source' : Source, source.Written text → source'.Written text → source = source') ∧
    ((∀ source : Source, ¬ source.Written text) →
      ∃ fault, parse text = .error fault ∧ fault.category = .malformed ∧
        fault.message = "Improperly formed instruction: '" ++ text ++ "'") := by
  refine ⟨fun source => parse_eq_ok_iff, ?_, ?_⟩
  · intro source source' h h'
    have hparse := parse_of_written h
    rw [parse_of_written h', Except.ok.injEq] at hparse
    exact hparse.symm
  · intro hnone
    rcases parse_cases text with ⟨source, hparse⟩ | hfault
    · exact absurd (written_of_parse hparse) (hnone source)
    · exact ⟨_, hfault, rfl, rfl⟩

/-- A vertical tab and a line separator do no harm at the ends of a text, and a vertical tab between
tokens makes it malformed. -/
theorem parse_grammar_ends :
    Written ⟨"move", ["1", "2"]⟩ "\x0bmove\t1 \n2\u2028" ∧
    (∀ source : Source, source.Written "\x0bmove\t1 \n2\u2028" → source = ⟨"move", ["1", "2"]⟩) ∧
    ∃ fault, parse " move\x0b1 2" = .error fault ∧ fault.category = .malformed ∧
      fault.message = "Improperly formed instruction: ' move\x0b1 2'" := by
  have hread : parse "\x0bmove\t1 \n2\u2028" = .ok ⟨"move", ["1", "2"]⟩ := by decide +kernel
  have hrefused : parse " move\x0b1 2" = .error (.malformedInstruction " move\x0b1 2") := by
    decide +kernel
  have hwritten := ((parse_grammar "\x0bmove\t1 \n2\u2028").1 _).mp hread
  refine ⟨hwritten, fun source h => (parse_grammar _).2.1 _ _ h hwritten, ?_⟩
  refine (parse_grammar " move\x0b1 2").2.2 fun source h => ?_
  rw [((parse_grammar _).1 source).mpr h] at hrefused
  cases hrefused

end LuaBytecode.Source
