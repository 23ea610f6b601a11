import PowerLift.Insn.Bits

/-!
# Instruction words

Instruction words have 32 bits. Field positions in comments count from the most significant bit,
as the processor manuals do. Several accessors read the same bits under the name that an
instruction's own description uses.
-/

namespace PowerLift

/-- An instruction word. -/
structure Insn where
  raw : BitVec 32
  deriving DecidableEq, Repr, Inhabited

namespace Insn

/-- The word at `offset`, or nothing where fewer than four bytes remain. -/
def fetch? (code : ByteArray) (offset : Nat) (order : ByteOrder) : Option Insn :=
  if offset + 4 ≤ code.size then
    let byte (i : Nat) : BitVec 8 := (code.get! (offset + i)).toBitVec
    some ⟨match order with
      | .big => byte 0 ++ byte 1 ++ byte 2 ++ byte 3
      | .little => byte 3 ++ byte 2 ++ byte 1 ++ byte 0⟩
  else none

/-- Whether a field lies within the word; the sum of its bounds has 32 bits. -/
def checkField (start width : Nat) : Except Fault Unit :=
  if width = 0 then .error (.fieldRange start width)
  else if UInt32.size ≤ start + width then .error .addOverflow
  else if 32 < start + width then .error (.fieldRange start width)
  else .ok ()

/-- The `width` bits from position `start` on, counted from the most significant bit. -/
def field (w : Insn) (start width : Nat) : Except Fault (BitVec 32) := do
  checkField start width
  return (w.raw.extractLsb' (32 - (start + width)) width).setWidth 32

/-- The word with a field replaced by the low bits of `v`. -/
def withField (w : Insn) (start width : Nat) (v : BitVec 32) : Except Fault Insn := do
  checkField start width
  let mask := (BitVec.allOnes width).setWidth 32
  let shift := 32 - (start + width)
  return ⟨(w.raw &&& ~~~(mask <<< shift)) ||| ((v &&& mask) <<< shift)⟩

/-- The `width` bits above the `shift` lowest ones. -/
def bits (w : Insn) (shift width : Nat) : Nat :=
  (w.raw.extractLsb' shift width).toNat

/-- The `width` bits from position `start` on, counted from the most significant bit, for fields
that lie within the word. -/
def slice (w : Insn) (start width : Nat) : Nat := w.bits (32 - (start + width)) width

/-- One bit. -/
def flag (w : Insn) (shift : Nat) : Bool := w.raw.getLsbD shift

/-! ## Opcodes -/

/-- Primary opcode, bits 0 to 5. -/
def opcode (w : Insn) : Nat := w.bits 26 6
/-- Extended opcode, bits 21 to 30. -/
def xo10 (w : Insn) : Nat := w.bits 1 10
/-- Extended opcode, bits 22 to 30, where bit 21 enables overflow. -/
def xo9 (w : Insn) : Nat := w.bits 1 9
/-- Extended opcode, bits 23 to 30. -/
def xo8 (w : Insn) : Nat := w.bits 1 8
/-- Extended opcode, bits 26 to 30. -/
def xo5 (w : Insn) : Nat := w.bits 1 5
/-- Extended opcode, bits 27 to 30. -/
def xo4 (w : Insn) : Nat := w.bits 1 4
/-- Extended opcode, bits 27 to 29. -/
def xo3 (w : Insn) : Nat := w.bits 2 3
/-- Extended opcode, bits 30 and 31. -/
def xo2 (w : Insn) : Nat := w.bits 0 2
/-- Extended opcode of vector instructions, bits 21 to 31. -/
def vxXo (w : Insn) : Nat := w.bits 0 11
/-- Extended opcode of four-operand vector instructions, bits 26 to 31. -/
def vaXo (w : Insn) : Nat := w.bits 0 6
/-- Extended opcode of vector comparisons, bits 22 to 31. -/
def vcXo (w : Insn) : Nat := w.bits 0 10
/-- Record bit of vector comparisons, bit 21. -/
def vcRecord (w : Insn) : Bool := w.flag 10

/-! ## Registers -/

/-- Target register, bits 6 to 10. -/
def rd (w : Insn) : Nat := w.bits 21 5
/-- Source register, the same bits as the target. -/
def rs (w : Insn) : Nat := w.rd
/-- First operand register, bits 11 to 15. -/
def ra (w : Insn) : Nat := w.bits 16 5
/-- Second operand register, bits 16 to 20. -/
def rb (w : Insn) : Nat := w.bits 11 5
/-- Third operand register, bits 21 to 25. -/
def rcField (w : Insn) : Nat := w.bits 6 5

/-! ## Single bits -/

/-- Record bit, bit 31. -/
def record (w : Insn) : Bool := w.flag 0
/-- Overflow enable, bit 21. -/
def oe (w : Insn) : Bool := w.flag 10
/-- Link bit, bit 31. -/
def lk (w : Insn) : Bool := w.flag 0
/-- Absolute-address bit, bit 30. -/
def aa (w : Insn) : Bool := w.flag 1
/-- Comparison width, bit 10. -/
def lBit (w : Insn) : Bool := w.flag 21

/-! ## Immediates -/

/-- The low 16 bits as a signed number. -/
def simm16 (w : Insn) : Int := (w.raw.setWidth 16).toInt
/-- The low 16 bits. -/
def uimm16 (w : Insn) : Nat := w.bits 0 16
/-- The low 16 bits with the last two cleared, as a signed number. -/
def ds (w : Insn) : Int := ((w.raw &&& 0xFFFC).setWidth 16).toInt
/-- Quadword displacement, bits 16 to 27, unscaled. -/
def dq (w : Insn) : Nat := w.bits 4 12
/-- Branch displacement, bits 6 to 29, unscaled. -/
def li24 (w : Insn) : Nat := w.bits 2 24
/-- Conditional-branch displacement, bits 16 to 29, unscaled. -/
def bd14 (w : Insn) : Nat := w.bits 2 14
/-- Branch options, bits 6 to 10. -/
def bo (w : Insn) : Nat := w.rd
/-- Condition bit of a branch, bits 11 to 15. -/
def bi (w : Insn) : Nat := w.ra
/-- Trap conditions, bits 6 to 10. -/
def trapOn (w : Insn) : Nat := w.rd
/-- Target condition field, bits 6 to 8. -/
def crfd (w : Insn) : Nat := w.bits 23 3
/-- Source condition field, bits 11 to 13. -/
def crfs (w : Insn) : Nat := w.bits 18 3
/-- Shift amount, bits 16 to 20. -/
def sh5 (w : Insn) : Nat := w.rb
/-- Mask beginning, bits 21 to 25. -/
def mb5 (w : Insn) : Nat := w.rcField
/-- Mask end, bits 26 to 30. -/
def me5 (w : Insn) : Nat := w.bits 1 5
/-- Six-bit shift amount, with bit 30 as its high bit. -/
def sh6 (w : Insn) : Nat := w.rb ||| (w.bits 1 1 <<< 5)
/-- Six-bit mask bound, with bit 26 as its high bit. -/
def mb6 (w : Insn) : Nat := w.rcField ||| (w.bits 5 1 <<< 5)
/-- Special-register number; the word holds its two halves in swapped order. -/
def spr (w : Insn) : Nat :=
  let stored := w.bits 11 10
  ((stored % 32) <<< 5) ||| (stored >>> 5)
/-- Time-base register number, stored as `spr` is. -/
def tbr (w : Insn) : Nat := w.spr
/-- Mask of condition fields, bits 12 to 19. -/
def crm (w : Insn) : Nat := w.bits 12 8
/-- Mask of floating-point status fields, bits 7 to 14. -/
def fm (w : Insn) : Nat := w.bits 17 8
/-- Byte count of string instructions, bits 16 to 20. -/
def nb (w : Insn) : Nat := w.rb

/-! ## Decimal forms -/

/-- Class mask or digit shift, bits 16 to 21. -/
def dcm (w : Insn) : Nat := w.bits 10 6
/-- Rounding control, bits 21 and 22. -/
def rmc (w : Insn) : Nat := w.bits 9 2
/-- Rounding set selector, bit 15. -/
def rBit (w : Insn) : Bool := w.flag 16

/-! ## Vector-scalar forms -/

/-- Target, with bit 31 as its high bit. -/
def xt (w : Insn) : Nat := w.rd ||| (w.bits 0 1 <<< 5)
/-- Source of stores, the same bits as the target. -/
def xs (w : Insn) : Nat := w.xt
/-- First operand, with bit 29 as its high bit. -/
def xa (w : Insn) : Nat := w.ra ||| (w.bits 2 1 <<< 5)
/-- Second operand, with bit 30 as its high bit. -/
def xb (w : Insn) : Nat := w.rb ||| (w.bits 1 1 <<< 5)
/-- Third operand, with bit 28 as its high bit. -/
def xc (w : Insn) : Nat := w.rcField ||| (w.bits 3 1 <<< 5)
/-- Two-bit selector of doubleword permutes and word shifts, bits 22 and 23. -/
def xxDm (w : Insn) : Nat := w.bits 8 2
/-- Two-bit word selector, bits 14 and 15. -/
def xxUim (w : Insn) : Nat := w.bits 16 2

end Insn

end PowerLift
