import LuaBytecode.Field

/-! Operand layouts, tables that give each layout its fields, and the check of such a table. -/
namespace LuaBytecode

inductive Layout where
  | a | ab | ac | abc | ax | abx | asbx
  deriving DecidableEq, Repr

namespace Layout

def all : List Layout := [.a, .ab, .ac, .abc, .ax, .abx, .asbx]

def name : Layout → String
  | .a => "iA"
  | .ab => "iAB"
  | .ac => "iAC"
  | .abc => "iABC"
  | .ax => "iAx"
  | .abx => "iABx"
  | .asbx => "iAsBx"

def ofName? (name : String) : Option Layout := all.find? (·.name == name)

/-- The fields of a layout, in the order in which operands are written. -/
def fields : Layout → List Field
  | .a => [.a]
  | .ab => [.a, .b]
  | .ac => [.a, .c]
  | .abc => [.a, .b, .c]
  | .ax => [.ax]
  | .abx => [.a, .bx]
  | .asbx => [.a, .sbx]

end Layout

/-- Fields by the name of their layout. A table can hold names that are no layout's. -/
structure LayoutTable where
  rows : List (String × List Field)

namespace LayoutTable

def standard : LayoutTable := ⟨Layout.all.map fun layout => (layout.name, layout.fields)⟩

def fieldsOf? (table : LayoutTable) (name : String) : Option (List Field) :=
  table.rows.lookup name

def erase (table : LayoutTable) (name : String) : LayoutTable :=
  ⟨table.rows.filter (·.1 != name)⟩

def replace (table : LayoutTable) (name : String) (fields : List Field) : LayoutTable :=
  ⟨(table.erase name).rows ++ [(name, fields)]⟩

/-- Checks fields from left to right: each lies in a word and shares no bit with those in `taken`
or with an earlier field. Only a field that lies in a word is shifted into its place. -/
def checkFields (layout : String) (taken : Nat) : List Field → Except Fault Unit
  | [] => .ok ()
  | f :: fs => do
    if f.offset < 0 ∨ f.width ≤ 0 ∨ f.stop > 32 then
      throw (.fieldOutsideWord f.name layout)
    let mask ← f.mask?
    if taken &&& mask ≠ 0 then
      throw (.fieldOverlap f.name layout)
    checkFields layout (taken ||| mask) fs

def checkLayout (table : LayoutTable) (layout : Layout) : Except Fault Unit :=
  match table.fieldsOf? layout.name with
  | none | some [] => .error (.layoutWithoutFields layout.name)
  | some fs => checkFields layout.name Field.op.mask fs

/-- Checks every layout in turn; names that are no layout's are left alone. -/
def check (table : LayoutTable) : Except Fault Unit :=
  Layout.all.forM table.checkLayout

end LayoutTable
end LuaBytecode
