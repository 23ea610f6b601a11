import PowerLift.Elf.Section

/-!
# What a loader is told

A file that is loaded has segments, which say where its bytes go, and may have a dynamic table. The
table names the libraries that the file needs, and says where relocations and the symbols to link
are. How many symbols there are is not said: the table of hash values and the relocations show it.
-/

namespace PowerLift.Elf

/-- A range of a file that a loader looks at. -/
structure Segment where
  /-- The number of the segment's type. -/
  kind : Nat
  offset : Nat
  addr : Nat
  /-- The number of bytes in the file. -/
  fileSize : Nat
  /-- The number of bytes in memory. -/
  memorySize : Nat
  deriving DecidableEq, Repr, Inhabited

namespace Segment

def isLoaded (s : Segment) : Bool := s.kind == 1

def isDynamic (s : Segment) : Bool := s.kind == 2

/-- Whether an address lies in the segment. -/
def holds (s : Segment) (addr : Nat) : Bool := s.addr ≤ addr && addr - s.addr < s.memorySize

/-- The place in the file of an address, in the first segment that is loaded there. -/
def place? (segments : List Segment) (addr : Nat) : Option Nat := do
  let s ← segments.find? fun s => s.isLoaded && s.holds addr
  let place := s.offset + (addr - s.addr)
  if place < UInt64.size then some place else none

end Segment

/-- What an entry of the dynamic table tells. -/
inductive Tag where
  | library
  | names | namesSize
  | symbols
  | hash | gnuHash
  | relocations | relocationsSize
  | plainRelocations | plainRelocationsSize
  | jumps | jumpsSize
  /-- The tag of the kind of relocation that jumps have. -/
  | jumpsKind
  deriving DecidableEq, Repr, Inhabited

namespace Tag

def number : Tag → Nat
  | library => 1
  | jumpsSize => 2
  | hash => 4
  | names => 5
  | symbols => 6
  | relocations => 7
  | relocationsSize => 8
  | namesSize => 10
  | plainRelocations => 17
  | plainRelocationsSize => 18
  | jumpsKind => 20
  | jumps => 23
  | gnuHash => 0x6FFFFEF5

end Tag

/-- The dynamic table. -/
structure Dynamic where
  /-- Numbers of tags, and values. -/
  entries : List (Nat × Nat)
  segments : List Segment
  names : NameTable := {}
  deriving DecidableEq, Repr, Inhabited

/-- Relocations as a range of a file. -/
structure Relocations where
  offset : Nat
  size : Nat
  /-- Whether each has an addend. -/
  addend : Bool
  deriving DecidableEq, Repr, Inhabited

namespace Dynamic

/-- The values with a tag. -/
def values (d : Dynamic) (tag : Tag) : List Nat :=
  (d.entries.filter (·.1 == tag.number)).map Prod.snd

/-- The value with a tag; the last counts. -/
def value (d : Dynamic) (tag : Tag) : Nat := (d.values tag).getLast?.getD 0

/-- The place in the file of the address with a tag. -/
def place? (d : Dynamic) (tag : Tag) : Option Nat :=
  (d.values tag).getLast?.bind (Segment.place? d.segments)

/-- The place in the file of the address with a tag, or the start of the file. -/
def place (d : Dynamic) (tag : Tag) : Nat := (d.place? tag).getD 0

/-- The needed libraries whose names are not in the table of names, as the table has them. -/
def unnamedLibraries (d : Dynamic) : List Nat :=
  (d.values .library).filter fun name => (d.names.get? name).isNone

/-- The relocations that the table tells of. -/
def relocations (d : Dynamic) : List Relocations :=
  [⟨d.place .relocations, d.value .relocationsSize, true⟩,
    ⟨d.place .plainRelocations, d.value .plainRelocationsSize, false⟩,
    ⟨d.place .jumps, d.value .jumpsSize, d.value .jumpsKind == Tag.relocations.number⟩]

end Dynamic

namespace Format

/-- The segment header at an offset. -/
def segment? (f : Format) (data : ByteArray) (at_ : Nat) : Option Segment := do
  return {
    kind := ← f.field? data at_ 0 0 4
    offset := (← f.address? data at_ 4 8).toNat
    addr := (← f.address? data at_ 8 16).toNat
    fileSize := (← f.address? data at_ 16 32).toNat
    memorySize := (← f.address? data at_ 20 40).toNat }

/-- The segment table. -/
def segments? (f : Format) (data : ByteArray) (offset count : Nat) : Option (List Segment) := do
  if count ≠ 0 ∧ !hasTable data offset (count * f.segmentSize) then none
  (List.range count).mapM fun i => f.segment? data (offset + i * f.segmentSize)

/-- The dynamic table of a file that has one. -/
def dynamic? (f : Format) (data : ByteArray) (segments : List Segment) :
    Option (Option Dynamic) := do
  let some s := segments.find? Segment.isDynamic | return none
  if s.fileSize ≠ 0 ∧ !hasTable data s.offset s.fileSize then none
  let entries ← (List.range (s.fileSize / f.dynamicSize)).mapM fun i => do
    let at_ := s.offset + i * f.dynamicSize
    return ((← f.address? data at_ 0 0).toNat, (← f.address? data at_ 4 8).toNat)
  let d : Dynamic := { entries := entries.takeWhile (·.1 ≠ 0), segments }
  return some { d with names := ← NameTable.read? data (d.place .names) (d.value .namesSize) }

/-! ## Symbols to link -/

/-- The numbers of the symbols that relocations name. -/
def relocatedSymbols? (f : Format) (data : ByteArray) (r : Relocations) : Option (List Nat) := do
  if r.size ≠ 0 ∧ !hasTable data r.offset r.size then none
  let size := f.relocationSize r.addend
  (List.range (r.size / size)).mapM fun i => do
    let info ← f.address? data (r.offset + i * size) 4 8
    return info.toNat >>> f.pick 8 32

/-- The number of symbols that a table of hash values has chains for. The chain behind the greatest
bucket is the last, and ends with the first odd value. -/
def chainedSymbols? (f : Format) (data : ByteArray) (table : Nat) : Option Nat := do
  let word? (at_ : Nat) : Option Nat := number? data f.order at_ 4
  let bucketCount ← word? table
  let first ← word? (table + 4)
  let filterSize ← word? (table + 8)
  if bucketCount = 0 ∨ first = 0 ∨ filterSize = 0 then none
  let buckets := table + 16 + filterSize * f.pick 4 8
  let chains := buckets + 4 * bucketCount
  if data.size < chains then none
  let last := ((← (List.range bucketCount).mapM fun i => word? (buckets + 4 * i)).max?).getD 0
  if last < first then return 0
  let chain := chains + 4 * (last - first)
  let steps ← (List.range ((data.size - chain) / 4)).find? fun i =>
    (word? (chain + 4 * i)).any (· % 2 = 1)
  return last + 1 + steps

/-- The number of symbols that a plain table of hash values is for. Two machines have wide counts
in wide files. -/
def hashedSymbols? (f : Format) (data : ByteArray) (machine table : Nat) : Option Nat :=
  let wide := f.wide && (machine == 22 || machine == 0x9026)
  number? data f.order (table + 4) (if wide then 8 else 4)

/-- The number of symbols to link. -/
def linkedSymbols? (f : Format) (data : ByteArray) (machine : Nat) (d : Dynamic) : Option Nat := do
  let named := (← d.relocations.mapM (f.relocatedSymbols? data)).flatten.foldl max 0
  let hashed ← match d.place? .gnuHash, d.place? .hash with
    | some table, _ => f.chainedSymbols? data table
    | none, some table => f.hashedSymbols? data machine table
    | none, none => some 0
  return if named = 0 then hashed else max hashed (named + 1)

/-- Whether relocations and symbols to link lie in the file. -/
def isLinkable (f : Format) (data : ByteArray) (machine : Nat) (d : Dynamic) : Bool :=
  match f.linkedSymbols? data machine d with
  | none => false
  | some count => hasTable data (d.place .symbols) (count * f.symbolSize)

end Format

end PowerLift.Elf
