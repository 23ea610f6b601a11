import PowerLift.Family.Basic

/-!
# Multiple-register and string transfers

Strings move byte by byte and fill each register from the top byte of its low word. Where the
length is known at run time only, every byte is preceded by an exit to the next instruction, and
the block ends.
-/

namespace PowerLift.Multiple

open Lift
open PowerLift.Expr (un bin)

/-- Consecutive words and the registers from the named one to the last. -/
def registers (w : Insn) : Lift Unit := do
  let isLoad := w.opcode == 46
  if isLoad then invalidIf w (w.rd ≤ w.ra) "lmw with rA in the loaded range"
  let name := if isLoad then "lmw" else "stmw"
  listed s!"{name} r{w.rd},{w.simm16}(r{w.ra})"
  let ea ← bind (← eaOr0Disp w.ra w.simm64)
  (List.range (32 - w.rd)).forM fun i => do
    let addr ← addrPlus ea (.ofNat 64 (4 * i))
    let r := w.rd + i
    if isLoad then putGpr r (← widen (← load .i32 addr) false)
    else store addr (← low32 (← getGpr r))

/-- Moves byte `i` of a string between memory and the register that holds it. -/
def moveByte (ea : Expr) (first : Nat) (isLoad : Bool) (length : Option Expr) (i : Nat) :
    Lift Unit := do
  let env ← read
  if let some n := length then
    exit (bin (.cmpLT .w32 .unsigned) n (.u32 (.ofNat 32 (i + 1)))) .boring env.nia
  let reg := (first + i / 4) % 32
  let shift : Expr := .u8 (.ofNat 8 (24 - 8 * (i % 4)))
  let addr ← addrPlus ea (.ofNat 64 i)
  if isLoad then
    if i % 4 = 0 then putGpr reg (env.imm 0)
    let byte ← widen (← load .i8 addr) false
    putGpr reg (bin (← wordOp .or) (← getGpr reg) (bin (← wordOp .shl) byte shift))
  else
    let word ← low32 (← getGpr reg)
    store addr (un (.cast .low32to8) (bin .shr32 word shift))

/-- Moves up to `max` bytes. -/
def moveBytes (ea : Expr) (first : Nat) (isLoad : Bool) (max : Nat) (length : Option Expr) :
    Lift Unit :=
  (List.range max).forM (moveByte ea first isLoad length)

/-- String transfers. -/
def string (w : Insn) : Lift Unit := do
  let isLoad := w.xo10 == 597 || w.xo10 == 533
  let immediate := w.xo10 == 597 || w.xo10 == 725
  let base := if isLoad then "lsw" else "stsw"
  if immediate then
    let n := if w.rb = 0 then 32 else w.rb
    if isLoad then
      let hit := (List.range ((n + 3) / 4)).any fun k => (w.rd + k) % 32 == w.ra
      invalidIf w (hit && w.ra != 0) "lswi with rA in the loaded range"
    listed s!"{base}i r{w.rd},r{w.ra},{n}"
    let ea ← bind (← eaOr0 w.ra)
    moveBytes ea w.rd isLoad n none
  else
    if isLoad then invalidIf w (w.rd == w.ra || w.rd == w.rb) "lswx with rD = rA or rB"
    listed s!"{base}x r{w.rd},r{w.ra},r{w.rb}"
    let ea ← bind (← eaOr0Idx w.ra w.rb)
    let n ← bind (un (.cast .zext8to32) (← getXerBc))
    moveBytes ea w.rd isLoad 128 (some n)
    stopAtNext .boring

/-- Lifts an instruction of the family. -/
def lift (w : Insn) : Lift Unit :=
  match w.opcode, w.xo10 with
  | 46, _ | 47, _ => registers w
  | 31, 597 | 31, 533 | 31, 725 | 31, 661 => string w
  | _, _ => unrecognized w "load/store multiple"

end PowerLift.Multiple
