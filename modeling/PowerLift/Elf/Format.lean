import PowerLift.Image

/-!
# Fields of executable files

The fields of an ELF file have one of two widths and one of two byte orders, which its
identification names. A table has to start in the file, also where it is empty.
-/

namespace PowerLift.Elf

/-- The bytes of a range, where the file has them all. -/
def slice? (data : ByteArray) (offset size : Nat) : Option ByteArray :=
  if offset + size ≤ data.size then some (data.extract offset (offset + size)) else none

/-- Whether a table lies in the file. -/
def hasTable (data : ByteArray) (offset size : Nat) : Bool :=
  offset < data.size && offset + size ≤ data.size

/-- The number that bytes stand for. -/
def number (order : ByteOrder) (bytes : List UInt8) : Nat :=
  let value (bytes : List UInt8) : Nat := bytes.foldl (fun acc b => acc * 256 + b.toNat) 0
  match order with
  | .big => value bytes
  | .little => value bytes.reverse

/-- The number in a field of a file. -/
def number? (data : ByteArray) (order : ByteOrder) (offset size : Nat) : Option Nat :=
  (slice? data offset size).map fun bytes => number order bytes.toList

/-- How a file is laid out: its byte order, and whether its addresses have 64 bits. -/
structure Format where
  order : ByteOrder
  wide : Bool
  deriving DecidableEq, Repr, Inhabited

namespace Format

/-- The format that the identification at the start of a file names. -/
def identify? (data : ByteArray) : Option Format := do
  match (← slice? data 0 16).toList with
  | 0x7F :: 0x45 :: 0x4C :: 0x46 :: width :: order :: _ =>
      let wide ← match width with
        | 1 => some false
        | 2 => some true
        | _ => none
      let order ← match order with
        | 1 => some ByteOrder.little
        | 2 => some ByteOrder.big
        | _ => none
      return ⟨order, wide⟩
  | _ => none

/-- The first of two numbers in files with narrow addresses, the second with wide ones. -/
def pick (f : Format) (narrow wide : Nat) : Nat := if f.wide then wide else narrow

/-- The number in a field whose place depends on the format. -/
def field? (f : Format) (data : ByteArray) (base narrow wide size : Nat) : Option Nat :=
  number? data f.order (base + f.pick narrow wide) size

/-- The address or size in a field whose place depends on the format. -/
def address? (f : Format) (data : ByteArray) (base narrow wide : Nat) : Option (BitVec 64) :=
  (f.field? data base narrow wide (f.pick 4 8)).map (.ofNat 64)

def headerSize (f : Format) : Nat := f.pick 52 64
def segmentSize (f : Format) : Nat := f.pick 32 56
def sectionSize (f : Format) : Nat := f.pick 40 64
def symbolSize (f : Format) : Nat := f.pick 16 24
def dynamicSize (f : Format) : Nat := f.pick 8 16

/-- The size of a relocation, with its addend or without. -/
def relocationSize (f : Format) (addend : Bool) : Nat :=
  if addend then f.pick 12 24 else f.pick 8 16

end Format

end PowerLift.Elf
