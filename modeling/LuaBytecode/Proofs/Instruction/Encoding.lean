import LuaBytecode.Proofs.Instruction.Packing
import LuaBytecode.Proofs.Session.Instructions

/-! Encoding operands of any size: without a check of ranges every operand is cut to its own field, and
nothing of it reaches the opcode or another operand. -/
namespace LuaBytecode

private theorem Registry.mem_of_lookup {r : Registry} {key : Datum} {o : Operation}
    (h : r.lookup key = .ok (some o)) : o ∈ r.operations := by
  rw [lookup] at h
  split at h
  · obtain ⟨n, _, hfind⟩ := Option.bind_eq_some_iff.mp (Except.ok.inj h)
    exact List.mem_of_find?_eq_some hfind
  · cases h

namespace Operation
open Outcome

theorem mem_all_of_ofDatum {datum : Datum} {o : Operation} (h : ofDatum datum = .ok o) : o ∈ all := by
  rw [ofDatum.eq_def] at h
  split at h
  · exact (byMnemonic?_eq_some (ofMnemonic_eq_ok_iff.mp h)).1
  · obtain ⟨found, hfound, h⟩ := bind_eq_ok_iff.mp h
    cases found with
    | none => cases h
    | some o' =>
      cases h
      exact Registry.mem_of_lookup hfound

theorem ofDatum_of_byOpcode? {key : Datum} {n : Int} {o : Operation} (hkey : key.isKey = true)
    (hn : key.integer? = some n) (h : Registry.standard.byOpcode? n = some o) : ofDatum key = .ok o := by
  have hlookup : Registry.standard.lookup key = .ok (some o) := by
    rw [Registry.lookup, if_pos hkey, hn, Option.bind_some, h]
  rw [ofDatum.eq_def]
  split
  · cases hn
  · rw [hlookup, ok_bind]

/-- Whatever the table contains, by number or by name, has an operation. -/
theorem ofDatum_of_contains {datum : Datum} (h : Registry.standard.contains datum = true) :
    ∃ o, ofDatum datum = .ok o := by
  cases datum with
  | int n =>
    obtain ⟨o, ho⟩ := Option.isSome_iff_exists.mp h
    exact ⟨o, ofDatum_of_byOpcode? rfl rfl ho⟩
  | bool flag =>
    obtain ⟨o, ho⟩ := Option.isSome_iff_exists.mp h
    exact ⟨o, ofDatum_of_byOpcode? rfl rfl ho⟩
  | text name =>
    obtain ⟨o, ho⟩ := Option.isSome_iff_exists.mp h
    exact ⟨o, ofMnemonic_eq_ok_iff.mpr ho⟩
  | _ => cases h

/-- What is read from a packed word is what each field keeps of its own value. -/
theorem forall₂_keeps_read_pack {o : Operation} {values : List Int}
    (hlen : values.length = o.fields.length) :
    List.Forall₂ (fun pair operand => pair.1.Keeps pair.2 operand) (o.fields.zip values)
      (o.fields.map (·.read (pack o.opcode o.fields values))) := by
  rw [map_read_pack hlen, ← List.map_uncurry_zip_eq_zipWith, List.forall₂_map_right_iff,
    List.forall₂_same]
  intro pair _
  exact Field.keeps_iff.mpr rfl

end Operation

namespace Instruction

/-- The lowest six bits decide whether a word holds an instruction and which. -/
theorem ofWord_eq (word : Nat) :
    ofWord word =
      match Registry.standard.byOpcode? (word % 64 : Nat) with
      | some o => .ok ⟨o, o.fields.map (·.read word)⟩
      | none => .error (.unknownOpcode (some (word % 64 : Nat))) := by
  rw [ofWord, Field.extract_op, Operation.ofOpcode]
  cases Registry.standard.byOpcode? (word % 64 : Nat) <;> rfl

theorem disassemble_eq (word : Nat) :
    disassemble word =
      match Registry.standard.byOpcode? (word % 64 : Nat) with
      | some o => .ok (text ⟨o, o.fields.map (·.read word)⟩)
      | none => .error (.unknownOpcode (some (word % 64 : Nat))) := by
  rw [disassemble, ofWord_eq]
  cases Registry.standard.byOpcode? (word % 64 : Nat) <;> rfl

theorem ofWord_pack {o : Operation} (ho : o ∈ Operation.all) (values : List Int) :
    ofWord (Operation.pack o.opcode o.fields values) =
      .ok ⟨o, o.fields.map (·.read (Operation.pack o.opcode o.fields values))⟩ := by
  have hfind := Operation.byOpcode?_eq_some_iff.mpr ⟨ho, (Operation.pack_mod ho values).symm⟩
  rw [ofWord_eq, hfind]

/-- Operands that their fields are meant for come back from the word as they were. -/
theorem ofWord_pack_of_inRange {o : Operation} (ho : o ∈ Operation.all) {values : List Int}
    (hlen : values.length = o.fields.length)
    (hrange : ∀ pair ∈ o.fields.zip values, pair.1.InRange pair.2) :
    ofWord (Operation.pack o.opcode o.fields values) = .ok ⟨o, values⟩ := by
  have hread := (Operation.zipWith_read_place_eq_iff hlen o.layout.bits_pos).mpr
    fun pair hpair => .inl (hrange pair hpair)
  rw [ofWord_pack ho, Operation.map_read_pack hlen, hread]

end Instruction

namespace Session
variable {t : Settings} {s : Session}

/-- A word that was encoded from operands in the ranges of their fields holds these operands. -/
theorem ofWord_of_run_encode {op : Datum} {o : Operation} {values : List Int} {word : Nat}
    (hop : Operation.ofDatum op = .ok o)
    (hrange : ∀ pair ∈ o.fields.zip values, pair.1.InRange pair.2)
    (hrun : run (encode op (values.map .int)) t s = (.ok word, s)) :
    Instruction.ofWord word = .ok ⟨o, values⟩ := by
  rw [run_encode hop, Prod.mk.injEq] at hrun
  have hlen := Operation.length_of_encode_eq_ok hrun.1
  rw [List.length_map] at hlen
  obtain ⟨rfl, _⟩ := (Operation.encode_int_eq_ok_iff hlen).mp hrun.1
  exact Instruction.ofWord_pack_of_inRange (Operation.mem_all_of_ofDatum hop) hlen hrange

/-- Whatever the table contains can be encoded with operands of any size where ranges are not checked.
The word uses no bits but those of the operation and is decoded to the same operation, with as much of
each operand as its own field keeps. Operands in the ranges of their fields are kept whole, so that
the word tells them and the operation. -/
theorem decode_encode_operands (hlenient : t.strictOperands = false) (s : Session) :
    (∀ op, Registry.standard.contains op = true → ∃ o, Operation.ofDatum op = .ok o ∧
      ∀ values : List Int, values.length = o.fields.length → ∃ word operands,
        run (encode op (values.map .int)) t s = (.ok word, s) ∧
        word < 2 ^ 32 ∧ word &&& o.mask = word ∧
        run (decode (.int word)) t s = (.ok ⟨o, operands⟩, s) ∧
        List.Forall₂ (fun pair operand => pair.1.Keeps pair.2 operand) (o.fields.zip values)
          operands ∧
        ∀ pair ∈ o.fields.zip values, ∃! operand, pair.1.Keeps pair.2 operand) ∧
    ∀ (op op' : Datum) (o o' : Operation) (values values' : List Int) (word : Nat),
      Operation.ofDatum op = .ok o → Operation.ofDatum op' = .ok o' →
      (∀ pair ∈ o.fields.zip values, pair.1.InRange pair.2) →
      (∀ pair ∈ o'.fields.zip values', pair.1.InRange pair.2) →
      run (encode op (values.map .int)) t s = (.ok word, s) →
      run (encode op' (values'.map .int)) t s = (.ok word, s) →
      o = o' ∧ values = values' := by
  constructor
  · intro op hop
    obtain ⟨o, ho⟩ := Operation.ofDatum_of_contains hop
    have hmem := Operation.mem_all_of_ofDatum ho
    refine ⟨o, ho, fun values hlen => ?_⟩
    have hlt := Operation.pack_lt hmem hlen
    refine ⟨_, _, ?_, hlt, Operation.pack_and_mask hlen, ?_, Operation.forall₂_keeps_read_pack hlen,
      fun pair _ => pair.1.existsUnique_keeps pair.2⟩
    · rw [run_encode ho, (Operation.encode_int_eq_ok_iff hlen).mpr ⟨rfl, by simp [hlenient]⟩]
    · rw [run_decode (run_wordOf_int hlt t s), Instruction.ofWord_pack hmem]
  · intro op op' o o' values values' word ho ho' hrange hrange' hrun hrun'
    have hword := ofWord_of_run_encode ho hrange hrun
    rw [ofWord_of_run_encode ho' hrange' hrun', Except.ok.injEq, Instruction.mk.injEq] at hword
    exact ⟨hword.1.symm, hword.2.symm⟩

/-- Operands far out of range are cut to their fields, and in range two operands make two words. -/
theorem decode_encode_operands_loadk :
    (∃ word, run (encode (.text "loadk") [.int (-1), .int (2 ^ 70 + 5)]) ⟨false, false, none⟩ {} =
        (.ok word, {}) ∧
      run (decode (.int word)) ⟨false, false, none⟩ {} =
        (.ok ⟨⟨1, "LOADK", .abx⟩, [255, -262139]⟩, {})) ∧
    ¬ ∃ word,
      run (encode (.int 1) [.int 255, .int (-1)]) ⟨false, false, none⟩ {} = (.ok word, {}) ∧
      run (encode (.text "LOADK") [.int 255, .int (-2)]) ⟨false, false, none⟩ {} = (.ok word, {}) := by
  obtain ⟨hencode, hinjective⟩ :=
    decode_encode_operands (t := ⟨false, false, none⟩) rfl ({} : Session)
  have hname (name : String) (h : Registry.standard.byMnemonic? name = some ⟨1, "LOADK", .abx⟩) :
      Operation.ofDatum (.text name) = .ok ⟨1, "LOADK", .abx⟩ := Operation.ofMnemonic_eq_ok_iff.mpr h
  constructor
  · obtain ⟨o, ho, hvalues⟩ := hencode (.text "loadk") (by decide +kernel)
    rw [hname "loadk" (by decide +kernel), Except.ok.injEq] at ho
    subst ho
    obtain ⟨word, operands, hrun, _, _, hdecode, hkeeps, _⟩ := hvalues [-1, 2 ^ 70 + 5] rfl
    refine ⟨word, hrun, ?_⟩
    have ha : Field.a.Keeps (-1) 255 := by decide
    have hbx : Field.bx.Keeps (2 ^ 70 + 5) (-262139) := by decide
    rw [hdecode]
    cases hkeeps with
    | cons hfirst hkeeps =>
      cases hkeeps with
      | cons hsecond hkeeps =>
        cases hkeeps
        rw [(Field.existsUnique_keeps ..).unique hfirst ha,
          (Field.existsUnique_keeps ..).unique hsecond hbx]
  · rintro ⟨word, hrun, hrun'⟩
    have hvalues := (hinjective (.int 1) (.text "LOADK") _ _ [255, -1] [255, -2] word rfl
      (hname "LOADK" (by decide +kernel)) (by decide) (by decide) hrun hrun').2
    simp at hvalues

end Session
end LuaBytecode
