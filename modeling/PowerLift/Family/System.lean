import PowerLift.Family.Basic

/-!
# System calls, special registers, caches and barriers
-/

namespace PowerLift.System

open Lift
open PowerLift.Expr (un bin)

/-- The system call; no field may be set. -/
def call (w : Insn) : Lift Unit := do
  if w.raw ≠ 0x44000002 then reserved w "sc with non-zero fields"
  listed "sc"
  putSlot SpecialSlot.ipAtSyscall (← imm (← read).cia)
  stopAtNext .sysSyscall

def fence : Lift Unit := onStage fun s => .ok s.fence

def instructionSync (w : Insn) : Lift Unit := do
  reservedZero w (w.slice 6 15) "isync bits 6..20"
  reservedClear w w.record "isync bit 31"
  listed "isync"
  fence

/-- Memory barriers. -/
def sync (w : Insn) : Lift Unit := do
  reservedClear w w.record "sync bit 31"
  if w.xo10 = 854 then
    reservedZero w (w.slice 6 15) "eieio bits 6..20"
    listed "eieio"
  else
    reservedZero w (w.slice 6 3) "sync bits 6..8"
    reservedZero w (w.slice 11 10) "sync bits 11..20"
    match w.slice 9 2 with
    | 0 => listed "sync"
    | 1 => listed "lwsync"
    | 2 => listed "ptesync"
    | _ => invalid w "sync L = 3"
  fence

/-- Waiting gives up the processor. -/
def wait (w : Insn) : Lift Unit := do
  reservedClear w w.record "wait bit 31"
  listed "wait"
  stopAtNext .yield

/-- A 64-bit value at the width of a general register. -/
def ofDoubleword (e : Expr) : Lift Expr := do
  if ← mode64 then return e else return un (.cast .low64to32) e

/-- The time base, or its upper half. -/
def timeBase (upper : Bool) : Lift Expr := do
  let t ← newTemp .i64
  onStage (·.call { helper := .readTimeBase, guard := .u1 true, args := [], result := some t,
                    memory := none, state := [] })
  ofDoubleword (if upper then bin .shr64 (.tmp t) (.u8 32) else .tmp t)

def readTimeBase (w : Insn) : Lift Unit := do
  reservedClear w w.record "mftb bit 31"
  match w.tbr with
  | 268 =>
      listed s!"mftb r{w.rd}"
      putGpr w.rd (← timeBase false)
  | 269 =>
      listed s!"mftbu r{w.rd}"
      putGpr w.rd (← timeBase true)
  | _ => unrecognized w "mftb TBR"

/-- How a special-purpose register is stored. -/
inductive Special where
  | xer
  /-- A register of the width of a general register. -/
  | word (s : SpecialSlot)
  /-- A 32-bit register. -/
  | narrow (s : SpecialSlot)
  /-- A 64-bit register. -/
  | wide (s : SpecialSlot)
  /-- The upper half of a 64-bit register. -/
  | upper (s : SpecialSlot)
  deriving DecidableEq, Repr

/-- Where the value of a special-purpose register comes from. -/
inductive Source where
  | stored (r : Special)
  | timeBase (upper : Bool)
  deriving DecidableEq, Repr

/-- The special-purpose registers that a program may read, by their numbers. -/
def source? : Nat → Option Source
  | 1 => some (.stored .xer)
  | 8 => some (.stored (.word .lr))
  | 9 => some (.stored (.word .ctr))
  | 815 => some (.stored (.word .tar))
  | 259 => some (.stored (.word .sprg3Ro))
  | 256 => some (.stored (.narrow .vrsave))
  | 268 => some (.timeBase false)
  | 269 => some (.timeBase true)
  | 896 => some (.stored (.wide .ppr))
  | 3 => some (.stored (.wide .dscr))
  | 128 => some (.stored (.wide .tfhar))
  | 129 => some (.stored (.wide .tfiar))
  | 130 => some (.stored (.wide .texasr))
  | 898 => some (.stored (.upper .ppr))
  | 131 => some (.stored (.narrow .texasru))
  | 159 => some (.stored (.narrow .pspb))
  | _ => none

def readSpecial (w : Insn) : Lift Unit := do
  reservedClear w w.record "mfspr bit 31"
  listed s!"mfspr r{w.rd},{w.spr}"
  let value ← match source? w.spr with
    | some (.stored .xer) => do widen (← getXer) false
    | some (.stored (.word s)) => getSlot s
    | some (.stored (.narrow s)) => do widen (← getSlot s) false
    | some (.stored (.wide s)) => do ofDoubleword (← getSlot s)
    | some (.stored (.upper s)) => do ofDoubleword (bin .shr64 (← getSlot s) (.u8 32))
    | some (.timeBase upper) => timeBase upper
    | none => unrecognized w "mfspr SPR"
  putGpr w.rd (← bind value)

/-- The special-purpose registers that a program may write, by their numbers. -/
def destination? : Nat → Option Special
  | 1 => some .xer
  | 8 => some (.word .lr)
  | 9 => some (.word .ctr)
  | 815 => some (.word .tar)
  | 256 => some (.narrow .vrsave)
  | 896 => some (.wide .ppr)
  | 3 => some (.wide .dscr)
  | 128 => some (.wide .tfhar)
  | 129 => some (.wide .tfiar)
  | 130 => some (.wide .texasr)
  | 898 => some (.upper .ppr)
  | 131 => some (.narrow .texasru)
  | 159 => some (.narrow .pspb)
  | _ => none

def writeSpecial (w : Insn) : Lift Unit := do
  reservedClear w w.record "mtspr bit 31"
  listed s!"mtspr {w.spr},r{w.rs}"
  let value ← bind (← getGpr w.rs)
  match destination? w.spr with
  | some .xer => putXer (← low32 value)
  | some (.word s) => putSlot s value
  | some (.narrow s) => putSlot s (← low32 value)
  | some (.wide s) => putSlot s (← to64 value false)
  | some (.upper s) =>
      let hi := bin .shl64 (← to64 value false) (.u8 32)
      putSlot s (bin .or64 hi (bin .and64 (← getSlot s) (.u64 0xFFFFFFFF)))
  | none => unrecognized w "mtspr SPR"

/-- The start of the aligned block of `size` bytes that holds the addressed byte. -/
def blockStart (w : Insn) (size : BitVec 32) : Lift Expr := do
  let ea ← eaOr0Idx w.ra w.rb
  let mask ← ofExcept (Bits.alignDown (.allOnes 64) (size.setWidth 64))
  bind (bin (← wordOp .and) ea (← imm mask))

/-- Zeroes the block of `size` bytes that holds the addressed byte. -/
def zeroBlock (w : Insn) (size : BitVec 32) : Lift Unit := do
  let base ← blockStart w size
  let step := (← read).arch.wordBytes
  (List.range ((size.toNat + step - 1) / step)).forM fun i => do
    store (← addrPlus base (.ofNat 64 (i * step))) (← imm 0)

/-- Records the addressed line as the range to invalidate and ends the block. -/
def invalidateLine (w : Insn) : Lift Unit := do
  let line := (← read).info.icacheLineSize
  let base ← blockStart w line
  putSlot SpecialSlot.cmStart base
  putSlot SpecialSlot.cmLen (← imm (line.setWidth 64))
  fence
  stopAtNext .invalICache

/-- Cache management. Flushes and hints have no effect. -/
def cache (w : Insn) : Lift Unit := do
  reservedClear w w.record "cache op bit 31"
  let operands := s!"r{w.ra},r{w.rb}"
  match w.xo10 with
  | 86 =>
      reservedZero w (w.slice 6 3) "dcbf bits 6..8"
      listed s!"dcbf {operands}"
  | 54 =>
      reservedZero w w.rd "dcbst bits 6..10"
      listed s!"dcbst {operands}"
  | 278 => listed s!"dcbt {operands}"
  | 246 => listed s!"dcbtst {operands}"
  | 1014 =>
      reservedZero w (w.slice 6 4) "dcbz bits 6..9"
      let long := w.slice 10 1 == 1
      let mark := if long then "l" else ""
      listed s!"dcbz{mark} {operands}"
      let info := (← read).info
      zeroBlock w (if long then info.dcbzlSize else info.dcbzSize)
  | _ =>
      reservedZero w w.rd "icbi bits 6..10"
      listed s!"icbi {operands}"
      invalidateLine w

/-- The bits of the vector status register: saturation and the mode of tiny numbers. -/
def vscrBits : BitVec 32 := 0x10001

/-- Moves between a vector register and the vector status register. -/
def vectorStatus (w : Insn) : Lift Unit := do
  if w.vxXo = 1540 then
    reservedZero w (w.ra ||| w.rb) "mfvscr vA/vB"
    listed s!"mfvscr v{w.rd}"
    putVr w.rd (un (.cast .zext32toV) (← getSlot SpecialSlot.vscr))
  else
    reservedZero w (w.rd ||| w.ra) "mtvscr vD/vA"
    listed s!"mtvscr v{w.rb}"
    let low := un (.cast .lowVto32) (← getVr w.rb)
    putSlot SpecialSlot.vscr (bin .and32 low (.u32 vscrBits))

/-- Lifts an instruction of the family. -/
def lift (w : Insn) : Lift Unit :=
  match w.opcode, w.xo10 with
  | 17, _ => call w
  | 19, 150 => instructionSync w
  | 31, 339 => readSpecial w
  | 31, 467 => writeSpecial w
  | 31, 371 => readTimeBase w
  | 31, 598 | 31, 854 => sync w
  | 31, 62 => wait w
  | 31, 86 | 31, 54 | 31, 278 | 31, 246 | 31, 1014 | 31, 982 => cache w
  | 4, _ =>
      if w.vxXo = 1540 ∨ w.vxXo = 1604 then vectorStatus w else unrecognized w "system"
  | _, _ => unrecognized w "system"

end PowerLift.System
