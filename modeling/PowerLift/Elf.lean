import PowerLift.Elf.Dynamic
import PowerLift.Failure

/-!
# Executable files

Of an ELF file the identification, the section table and the symbol table are read. A file is
refused as a whole where one of these lies outside it, or one of the tables that only a loader or
linker reads.
-/

namespace PowerLift

/-- What is read of an executable file. -/
structure Elf where
  format : Elf.Format
  /-- The number of the machine. -/
  machine : Nat
  entry : BitVec 64
  sections : List Elf.Section
  sectionNames : Elf.NameTable
  symbols : List Elf.Symbol
  symbolNames : Elf.NameTable
  dynamic : Option Elf.Dynamic
  deriving DecidableEq, Repr, Inhabited

namespace Elf

/-- Reads an executable file. -/
def parse? (data : ByteArray) : Option Elf := do
  let f ← Format.identify? data
  let _ ← slice? data 0 f.headerSize
  let machine ← f.field? data 0 18 18 2
  let entry ← f.address? data 0 24 24
  let segments ← f.segments? data (← f.address? data 0 28 32).toNat (← f.field? data 0 44 56 2)
  let sections ← f.sections? data (← f.address? data 0 32 40).toNat (← f.field? data 0 48 60 2)
  let sectionNames ← Format.names? data sections (← f.field? data 0 50 62 2)
  let (symbols, symbolNames) ← match sections.reverse.find? Section.isSymbolTable with
    | none => pure ([], {})
    | some s => do pure (← f.symbols? data s, ← Format.names? data sections s.link)
  let dynamic ← f.dynamic? data segments
  return { format := f, machine, entry, sections, sectionNames, symbols, symbolNames, dynamic }

/-- The needed libraries without a name. -/
def unnamedLibraries (elf : Elf) : List Nat := (elf.dynamic.map Dynamic.unnamedLibraries).getD []

/-- Whether the first section of a type, if there is one, lies in the file. -/
def hasFirst (elf : Elf) (data : ByteArray) (kind : Nat) : Bool :=
  (elf.sections.find? (·.kind == kind)).all fun s => hasTable data s.offset.toNat s.size.toNat

/-- Whether the tables of a loader or linker lie in the file: what the dynamic table tells of,
relocations, and the versions of symbols, of definitions and of needs. -/
def isSound (elf : Elf) (data : ByteArray) : Bool :=
  elf.dynamic.all (elf.format.isLinkable data elf.machine) &&
    elf.sections.all (fun s => !s.isRelocationTable || s.fits data.size) &&
    [0x6FFFFFFF, 0x6FFFFFFD, 0x6FFFFFFE].all (elf.hasFirst data)

/-! ## Where to start -/

/-- How the start is chosen. -/
inductive Start where
  | entry
  | symbol (name : String)
  | addr (a : BitVec 64)
  deriving DecidableEq, Repr, Inhabited

/-- The processor variant that a file is for. -/
def arch (elf : Elf) : Except Failure Arch :=
  match elf.machine with
  | 20 => .ok .ppc32
  | 21 => .ok .ppc64
  | number => .error (.machine number)

/-- The address that was asked for. -/
def startAddress (elf : Elf) : Start → Except Failure (BitVec 64)
  | .entry => .ok elf.entry
  | .addr a => .ok a
  | .symbol name =>
      match elf.symbols.find? fun s => elf.symbolNames.get? s.name == some name with
      | some s => .ok s.value
      | none => .error (.noSymbol name)

/-- The first section with a name. -/
def sectionNamed? (elf : Elf) (name : String) : Option Section :=
  elf.sections.find? fun s => elf.sectionNames.get? s.name == some name

/-- Takes over a fault as a failure. -/
def ofFault {α : Type} (r : Except Fault α) : Except Failure α := r.mapError .fault

/-- The code address in the function descriptor at an address, if descriptors are kept there. -/
def descriptor? (elf : Elf) (data : ByteArray) (addr : BitVec 64) :
    Except Failure (Option (BitVec 64)) := do
  let some table := elf.sectionNamed? ".opd" | return none
  if !(← ofFault (table.holds addr)) then return none
  let offset ← ofFault (Address.add table.offset (addr - table.addr))
  let _ ← ofFault (Address.add offset 8)
  match number? data elf.format.order offset.toNat 8 with
  | none => throw (.truncatedDescriptor addr)
  | some code => return some (.ofNat 64 code)

/-- The first section of those given that holds an address. -/
def firstHolding (addr : BitVec 64) : List Section → Except Failure Section
  | [] => .error (.notExecutable addr)
  | s :: rest => do
      if ← ofFault (s.holds addr) then return s
      firstHolding addr rest

/-- The executable section that holds an address. -/
def executableAt (elf : Elf) (addr : BitVec 64) : Except Failure Section :=
  firstHolding addr (elf.sections.filter Section.isExecutable)

/-- The bytes of a section at its address. -/
def image (data : ByteArray) (s : Section) : Except Failure Image :=
  if s.isEmptyInFile then .error .noFileData
  else match slice? data s.offset.toNat s.size.toNat with
    | none => .error .beyondFile
    | some bytes => .ok ⟨s.addr, bytes⟩

end Elf

end PowerLift
