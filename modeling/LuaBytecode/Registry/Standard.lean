import LuaBytecode.Registry

/-! The operations of version 5.2 of the virtual machine. -/
namespace LuaBytecode

namespace Operation

/-- The operations by rising opcode. -/
def all : List Operation := [
  ⟨0, "MOVE", .ab⟩, ⟨1, "LOADK", .abx⟩, ⟨2, "LOADKX", .a⟩, ⟨3, "LOADBOOL", .abc⟩,
  ⟨4, "LOADNIL", .ab⟩, ⟨5, "GETUPVAL", .ab⟩, ⟨6, "GETTABUP", .abc⟩, ⟨7, "GETTABLE", .abc⟩,
  ⟨8, "SETTABUP", .abc⟩, ⟨9, "SETUPVAL", .ab⟩, ⟨10, "SETTABLE", .abc⟩, ⟨11, "NEWTABLE", .abc⟩,
  ⟨12, "SELF", .abc⟩, ⟨13, "ADD", .abc⟩, ⟨14, "SUB", .abc⟩, ⟨15, "MUL", .abc⟩, ⟨16, "DIV", .abc⟩,
  ⟨17, "MOD", .abc⟩, ⟨18, "POW", .abc⟩, ⟨19, "UNM", .ab⟩, ⟨20, "NOT", .ab⟩, ⟨21, "LEN", .ab⟩,
  ⟨22, "CONCAT", .abc⟩, ⟨23, "JMP", .asbx⟩, ⟨24, "EQ", .abc⟩, ⟨25, "LT", .abc⟩, ⟨26, "LE", .abc⟩,
  ⟨27, "TEST", .ac⟩, ⟨28, "TESTSET", .abc⟩, ⟨29, "CALL", .abc⟩, ⟨30, "TAILCALL", .abc⟩,
  ⟨31, "RETURN", .ab⟩, ⟨32, "FORLOOP", .asbx⟩, ⟨33, "FORPREP", .asbx⟩, ⟨34, "TFORCALL", .ac⟩,
  ⟨35, "TFORLOOP", .asbx⟩, ⟨36, "SETLIST", .abc⟩, ⟨37, "CLOSURE", .abx⟩, ⟨38, "VARARG", .ab⟩,
  ⟨39, "EXTRAARG", .ax⟩]

def entry (o : Operation) : Registry.Entry := ⟨o.opcode, o.mnemonic, o.layout.name⟩

end Operation

namespace Registry

def standard : Registry := ⟨LayoutTable.standard, Operation.all⟩

def standardEntries : List Entry := Operation.all.map Operation.entry

end Registry
end LuaBytecode
