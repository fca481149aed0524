import LuaBytecode.Proofs.Fault
import LuaBytecode.Proofs.Layout
import Mathlib.Data.List.Nodup

/-! Building registries: entries are bound exactly if they do not clash, the earliest entry that does is
the fault, and a registry finds every operation by its opcode and by its mnemonic. -/
namespace LuaBytecode

namespace Operation

@[simp] theorem opcode_entry (o : Operation) : o.entry.opcode = o.opcode := rfl

@[simp] theorem mnemonic_entry (o : Operation) : o.entry.mnemonic = o.mnemonic := rfl

theorem entry_injective : Function.Injective entry := by
  have hname : ∀ l l' : Layout, l.name = l'.name → l = l' := by
    intro l l'
    cases l <;> cases l' <;> decide
  rintro ⟨n, s, l⟩ ⟨n', s', l'⟩ h
  simp only [entry, Registry.Entry.mk.injEq, Nat.cast_inj] at h
  rw [h.1, h.2.1, hname l l' h.2.2]

end Operation

namespace Registry

namespace Entry

/-- An entry that can be bound after those before it. -/
structure Follows (earlier : List Entry) (e : Entry) : Prop where
  opcode_range : 0 ≤ e.opcode ∧ e.opcode ≤ 63
  upper : e.mnemonic = Text.upper e.mnemonic
  opcode_free : ∀ o ∈ earlier, o.opcode ≠ e.opcode
  mnemonic_free : ∀ o ∈ earlier, o.mnemonic ≠ e.mnemonic

/-- The fault of an entry that cannot be bound after those before it. The range of its opcode is looked
at first, then the case of its mnemonic, then whether the opcode and last whether the mnemonic is
taken. -/
inductive Offends (earlier : List Entry) (e : Entry) : Fault → Prop
  | opcodeRange (h : ¬ (0 ≤ e.opcode ∧ e.opcode ≤ 63)) :
      Offends earlier e (.opcodeOutOfRange e.opcode e.mnemonic)
  | notUpper (hrange : 0 ≤ e.opcode ∧ e.opcode ≤ 63) (h : e.mnemonic ≠ Text.upper e.mnemonic) :
      Offends earlier e (.mnemonicNotUpper e.mnemonic)
  | opcodeTaken (hrange : 0 ≤ e.opcode ∧ e.opcode ≤ 63) (hupper : e.mnemonic = Text.upper e.mnemonic)
      {first : Entry} (hfirst : first ∈ earlier) (h : first.opcode = e.opcode) :
      Offends earlier e (.opcodeTaken e.opcode first.mnemonic e.mnemonic)
  | mnemonicTaken (hrange : 0 ≤ e.opcode ∧ e.opcode ≤ 63)
      (hupper : e.mnemonic = Text.upper e.mnemonic) (hfree : ∀ o ∈ earlier, o.opcode ≠ e.opcode)
      {first : Entry} (hfirst : first ∈ earlier) (h : first.mnemonic = e.mnemonic) :
      Offends earlier e (.mnemonicTaken e.mnemonic first.opcode e.opcode)

variable {earlier : List Entry} {e : Entry} {fault fault' : Fault}

end Entry

/-- Entries that can all be bound: their opcodes fit the opcode field, their mnemonics are in upper case,
and no two share an opcode or a mnemonic. -/
structure Consistent (entries : List Entry) : Prop where
  opcode_range : ∀ e ∈ entries, 0 ≤ e.opcode ∧ e.opcode ≤ 63
  upper : ∀ e ∈ entries, e.mnemonic = Text.upper e.mnemonic
  opcodes_nodup : (entries.map (·.opcode)).Nodup
  mnemonics_nodup : (entries.map (·.mnemonic)).Nodup

/-- Among consistent entries an entry that cannot follow has one fault. -/
theorem Entry.Offends.unique {earlier : List Entry} {e : Entry} {fault fault' : Fault}
    (hearlier : Consistent earlier) (h : e.Offends earlier fault) (h' : e.Offends earlier fault') :
    fault = fault' := by
  cases h with
  | opcodeRange h =>
    cases h' with
    | opcodeRange => rfl
    | _ => contradiction
  | notUpper hrange h =>
    cases h' with
    | opcodeRange => contradiction
    | notUpper => rfl
    | _ => contradiction
  | opcodeTaken hrange hupper hfirst h =>
    cases h' with
    | opcodeTaken _ _ hfirst' h' =>
      rw [List.inj_on_of_nodup_map hearlier.opcodes_nodup hfirst hfirst' (h.trans h'.symm)]
    | mnemonicTaken _ _ hfree => exact absurd h (hfree _ hfirst)
    | _ => contradiction
  | mnemonicTaken hrange hupper hfree hfirst h =>
    cases h' with
    | opcodeTaken _ _ hfirst' h' => exact absurd h' (hfree _ hfirst')
    | mnemonicTaken _ _ _ hfirst' h' =>
      rw [List.inj_on_of_nodup_map hearlier.mnemonics_nodup hfirst hfirst' (h.trans h'.symm)]
    | _ => contradiction

/-- In a list whose elements have different keys, each is found by its key. -/
theorem find?_key_eq_some_iff {α β : Type} [BEq β] [LawfulBEq β] {key : α → β} {xs : List α}
    (h : (xs.map key).Nodup) {k : β} {x : α} :
    xs.find? (fun x => key x == k) = some x ↔ x ∈ xs ∧ key x = k := by
  constructor
  · intro hfind
    exact ⟨List.mem_of_find?_eq_some hfind, by simpa using List.find?_some hfind⟩
  · rintro ⟨hx, rfl⟩
    have hsome : (xs.find? (fun y => key y == key x)).isSome :=
      List.find?_isSome.mpr ⟨x, hx, beq_self_eq_true (key x)⟩
    obtain ⟨y, hy⟩ := Option.isSome_iff_exists.mp hsome
    have hkey : key y = key x := by simpa using List.find?_some hy
    rw [hy, List.inj_on_of_nodup_map h (List.mem_of_find?_eq_some hy) hx hkey]

/-- A registry that was built of entries. -/
structure Holds (r : Registry) (entries : List Entry) : Prop where
  operations_eq : r.operations.map (·.entry) = entries
  consistent : Consistent entries

namespace Holds
variable {r : Registry} {entries : List Entry}

theorem mem_iff (h : r.Holds entries) (o : Operation) : o.entry ∈ entries ↔ o ∈ r.operations := by
  rw [← h.operations_eq]
  exact List.mem_map_of_injective Operation.entry_injective

theorem opcodes_nodup (h : r.Holds entries) :
    (r.operations.map fun o => (o.opcode : Int)).Nodup := by
  have hnodup := h.consistent.opcodes_nodup
  rw [← h.operations_eq, List.map_map] at hnodup
  exact hnodup

theorem mnemonics_nodup (h : r.Holds entries) : (r.operations.map (·.mnemonic)).Nodup := by
  have hnodup := h.consistent.mnemonics_nodup
  rw [← h.operations_eq, List.map_map] at hnodup
  exact hnodup

theorem byOpcode?_eq_some_iff (h : r.Holds entries) {n : Int} {o : Operation} :
    r.byOpcode? n = some o ↔ o.entry ∈ entries ∧ (o.opcode : Int) = n := by
  rw [h.mem_iff]
  exact find?_key_eq_some_iff h.opcodes_nodup

end Holds

/-- The standard registry is built of the standard entries. -/
theorem ofEntries_standardEntries : ofEntries standardEntries .standard = .ok standard := by
  have hcheck : LayoutTable.standard.check = .ok () := by decide
  have hbind : bindAll [] standardEntries = .ok Operation.all := by decide +kernel
  rw [ofEntries, hcheck, Outcome.ok_bind, hbind]
  rfl

end Registry
end LuaBytecode
