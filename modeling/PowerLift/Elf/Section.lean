import PowerLift.Elf.Format

/-!
# Sections, symbols and names

A section is a part of a file with a name. Names and symbols are kept in sections of their own.
-/

namespace PowerLift.Elf

/-- Names as a table of bytes; a name ends at the next zero byte. -/
structure NameTable where
  bytes : List UInt8 := []
  deriving DecidableEq, Repr, Inhabited

namespace NameTable

/-- The name that starts at an offset. The end of the table starts an empty name only where the
table lacks its closing zero. -/
def get? (t : NameTable) (offset : Nat) : Option String :=
  let here := t.bytes.drop offset
  if here = [] ∧ ¬ (offset = t.bytes.length ∧ (t.bytes.getLast?.getD 0) ≠ 0) then none
  else String.fromUTF8? ⟨(here.takeWhile (· ≠ 0)).toArray⟩

/-- The names in a range of a file. -/
def read? (data : ByteArray) (offset size : Nat) : Option NameTable := do
  let bytes ← slice? data offset size
  let _ ← String.fromUTF8? bytes
  return ⟨bytes.toList⟩

end NameTable

/-- A section of an executable file. -/
structure Section where
  /-- Offset of the name. -/
  name : Nat
  /-- The number of the section's type. -/
  kind : Nat
  flags : BitVec 64
  addr : BitVec 64
  offset : BitVec 64
  size : BitVec 64
  /-- The number of a section that belongs to this one. -/
  link : Nat
  /-- The size of an entry, for tables. -/
  entrySize : Nat
  deriving DecidableEq, Repr, Inhabited

namespace Section

/-- Whether the section has no bytes in the file. -/
def isEmptyInFile (s : Section) : Bool := s.kind == 8

/-- Whether the section's bytes lie in a file, and its addresses in the address space. -/
def fits (s : Section) (fileSize : Nat) : Bool :=
  s.isEmptyInFile || s.size == 0 ||
    (s.offset.toNat + s.size.toNat ≤ fileSize && s.addr.toNat + s.size.toNat < UInt64.size)

def isSymbolTable (s : Section) : Bool := s.kind == 2

/-- Whether the section has relocations, with addends or without. -/
def isRelocationTable (s : Section) : Bool := s.kind == 4 || s.kind == 9

def isExecutable (s : Section) : Bool := s.flags.getLsbD 2

/-- Whether an address lies in the section. -/
def holds (s : Section) (addr : BitVec 64) : Except Fault Bool := do
  if addr < s.addr then return false
  return addr < (← Address.add s.addr s.size)

end Section

/-- A symbol of an executable file. -/
structure Symbol where
  /-- Offset of the name. -/
  name : Nat
  value : BitVec 64
  deriving DecidableEq, Repr, Inhabited

namespace Format

/-- The section header at an offset. -/
def section? (f : Format) (data : ByteArray) (at_ : Nat) : Option Section := do
  let _ ← slice? data at_ f.sectionSize
  return {
    name := ← f.field? data at_ 0 0 4
    kind := ← f.field? data at_ 4 4 4
    flags := ← f.address? data at_ 8 8
    addr := ← f.address? data at_ 12 16
    offset := ← f.address? data at_ 16 24
    size := ← f.address? data at_ 20 32
    link := ← f.field? data at_ 24 40 4
    entrySize := (← f.address? data at_ 36 56).toNat }

/-- The section table. A file without one has the offset zero; a count of zero means that the first
section has the count in place of its size. -/
def sections? (f : Format) (data : ByteArray) (offset count : Nat) : Option (List Section) := do
  if offset = 0 then return []
  let first ← f.section? data offset
  let count := if count = 0 then first.size.toNat else count
  if data.size / f.sectionSize < count then none
  let rest ← (List.range (count - 1)).mapM fun i =>
    f.section? data (offset + f.sectionSize * (i + 1))
  return first :: rest

/-- The names in a section; a section that the file lacks has none. -/
def names? (data : ByteArray) (sections : List Section) (index : Nat) : Option NameTable :=
  let index := if index = 0xFFFF then (sections.head?.map Section.link).getD index else index
  match sections[index]? with
  | none => some {}
  | some s => if s.fits data.size then NameTable.read? data s.offset.toNat s.size.toNat else none

/-- The symbols in a section. -/
def symbols? (f : Format) (data : ByteArray) (s : Section) : Option (List Symbol) := do
  let count := if s.entrySize = 0 then 0 else s.size.toNat / s.entrySize
  let base := s.offset.toNat
  if !hasTable data base (count * f.symbolSize) then none
  (List.range count).mapM fun i => do
    let at_ := base + i * f.symbolSize
    return { name := ← f.field? data at_ 0 0 4, value := ← f.address? data at_ 4 8 }

end Format

end PowerLift.Elf
