import LuaBytecode.Layout
import LuaBytecode.Text.Upper

/-! Registries of operations: each opcode bound to one mnemonic and one layout. -/
namespace LuaBytecode

structure Operation where
  opcode : Nat
  mnemonic : String
  layout : Layout
  deriving DecidableEq, Repr

namespace Operation

def fields (o : Operation) : List Field := o.layout.fields

end Operation

structure Registry where
  layouts : LayoutTable
  operations : List Operation

namespace Registry

/-- An operation as it is proposed for a registry, the layout given by name. -/
structure Entry where
  opcode : Int
  mnemonic : String
  layout : String

def maxOpcode : Nat := Bits.mask Field.op.bits

def accept (bound : List Operation) (entry : Entry) : Except Fault Operation :=
  if entry.opcode < 0 ∨ entry.opcode > maxOpcode then
    .error (.opcodeOutOfRange entry.opcode entry.mnemonic)
  else if entry.mnemonic ≠ Text.upper entry.mnemonic then
    .error (.mnemonicNotUpper entry.mnemonic)
  else match bound.find? (fun o => (o.opcode : Int) == entry.opcode) with
    | some o => .error (.opcodeTaken entry.opcode o.mnemonic entry.mnemonic)
    | none =>
      match bound.find? (·.mnemonic == entry.mnemonic) with
      | some o => .error (.mnemonicTaken entry.mnemonic o.opcode entry.opcode)
      | none =>
        match Layout.ofName? entry.layout with
        | none => .error (.unknownLayout entry.layout)
        | some layout => .ok ⟨entry.opcode.toNat, entry.mnemonic, layout⟩

def bindAll (bound : List Operation) : List Entry → Except Fault (List Operation)
  | [] => .ok bound
  | entry :: entries => do
    let operation ← accept bound entry
    bindAll (bound ++ [operation]) entries

/-- The registry of these entries over a layout table; the table is checked first. -/
def ofEntries (entries : List Entry) (layouts : LayoutTable) : Except Fault Registry := do
  layouts.check
  return ⟨layouts, ← bindAll [] entries⟩

def byOpcode? (r : Registry) (opcode : Int) : Option Operation :=
  r.operations.find? fun o => (o.opcode : Int) == opcode

/-- Mnemonics are looked up without regard to case. -/
def byMnemonic? (r : Registry) (name : String) : Option Operation :=
  r.operations.find? (·.mnemonic == Text.upper name)

def lookup (r : Registry) (key : Datum) : Except Fault (Option Operation) :=
  if key.isKey then .ok (key.integer?.bind r.byOpcode?) else .error .notKey

/-- The operation whose mnemonic a datum spells. Bytes can be put in upper case but spell none. -/
def lookupName (r : Registry) (key : Datum) : Except Fault (Option Operation) :=
  match key with
  | .text name => .ok (r.byMnemonic? name)
  | .bytes _ => .ok none
  | .byteArray _ => .error .notKey
  | _ => .error .notText

/-- Whether an integer is a bound opcode or a text a bound mnemonic. -/
def contains (r : Registry) : Datum → Bool
  | .int opcode => (r.byOpcode? opcode).isSome
  | .bool flag => (r.byOpcode? (if flag then 1 else 0)).isSome
  | .text name => (r.byMnemonic? name).isSome
  | _ => false

def fieldsOf (r : Registry) (key : Datum) : Except Fault (List Field) :=
  match key with
  | .text name =>
    match r.layouts.fieldsOf? name with
    | some fields => .ok fields
    | none => .error .absentLayout
  | key => .error (if key.isKey then .absentLayout else .notKey)

def size (r : Registry) : Nat := r.operations.length

def sorted (r : Registry) : List Operation :=
  r.operations.mergeSort fun o o' => o.opcode ≤ o'.opcode

end Registry
end LuaBytecode
