import PowerLift.Family.Basic

/-!
# Branches

Every branch ends its block, except an unconditional one to a fixed target that the caller agrees
to follow within the block.
-/

namespace PowerLift

/-- What a conditional branch tests. -/
structure BranchOptions where
  /-- The count register is decremented and tested. -/
  decrement : Bool
  /-- A decremented count register must be zero rather than nonzero. -/
  onZero : Bool
  /-- The condition bit is tested. -/
  testBit : Bool
  /-- A tested condition bit must be set rather than clear. -/
  onSet : Bool
  deriving DecidableEq, Repr, Inhabited

namespace BranchOptions

/-- The options that the five-bit field encodes. -/
def decode (bo : Nat) : BranchOptions :=
  { decrement := !bo.testBit 2, onZero := bo.testBit 1, testBit := !bo.testBit 4,
    onSet := bo.testBit 3 }

/-- Whether nothing is tested. -/
def unconditional (o : BranchOptions) : Bool := !o.decrement && !o.testBit

end BranchOptions

namespace Branch

open Lift
open PowerLift.Expr (un bin)

/-- Decrements the count register where the options ask for it. -/
def countDown (o : BranchOptions) : Lift Unit := do
  if o.decrement then
    putSlot SpecialSlot.ctr (bin (← wordOp .sub) (← getSlot SpecialSlot.ctr) (← imm 1))

/-- Whether the decremented count register allows the branch. -/
def countAllows (o : BranchOptions) : Lift Expr := do
  let op : SizedOp := if o.onZero then .cmpEQ else .cmpNE
  return bin (← wordOp op) (← getSlot SpecialSlot.ctr) (← imm 0)

/-- Whether a condition bit allows the branch. -/
def bitAllows (o : BranchOptions) (bi : Nat) : Lift Expr :=
  return bin .cmpEQ32 (← getCrBit bi) (.u32 (if o.onSet then 1 else 0))

/-- Whether the branch is taken, from the decremented count register and a condition bit. -/
def taken (o : BranchOptions) (bi : Nat) : Lift Expr := do
  match o.decrement, o.testBit with
  | false, false => bind (.u1 true)
  | true, false => bind (← countAllows o)
  | false, true => bind (← bitAllows o bi)
  | true, true => bind (bin .and1 (← countAllows o) (← bitAllows o bi))

/-- Writes the return address. -/
def link : Lift Unit := do putSlot SpecialSlot.lr (← imm (← read).nia)

def callOrJump (w : Insn) : JumpKind := if w.lk then .call else .boring

def linkMark (w : Insn) : String := if w.lk then "l" else ""

def marks (w : Insn) : String := linkMark w ++ if w.aa then "a" else ""

/-- A displacement as a target: relative to the instruction, or absolute. -/
def target (env : Env) (w : Insn) (disp : BitVec 64) : BitVec 64 :=
  env.cutAddress (if w.aa then disp else env.cia + disp)

/-- Branches to a fixed target. -/
def immediate (w : Insn) : Lift Unit := do
  let env ← read
  let target := target env w ((BitVec.ofNat 26 (w.li24 * 4)).signExtend 64)
  listed s!"b{marks w} {Text.hex target.toNat}"
  if w.lk then
    link
    if env.abi.zapAtCall target then redzoneHint (env.imm target)
  if env.mayResteer target then setNext (.resteer target)
  else jumpTo (env.imm target) (callOrJump w)

/-- Conditional branches to a fixed target. -/
def conditional (w : Insn) : Lift Unit := do
  let env ← read
  let target := target env w ((BitVec.ofNat 16 (w.bd14 * 4)).signExtend 64)
  listed s!"bc{marks w} {Text.hexAtLeast 2 w.bo},{w.bi},{Text.hex target.toNat}"
  let o := BranchOptions.decode w.bo
  countDown o
  let t ← taken o w.bi
  if w.lk then link
  exit t (callOrJump w) target
  stopAtNext .boring

/-- A register that holds a branch target. -/
inductive Via where
  | lr | ctr | tar
  deriving DecidableEq, Repr

namespace Via

def slot : Via → SpecialSlot
  | lr => .lr
  | ctr => .ctr
  | tar => .tar

def name : Via → String
  | lr => "lr"
  | ctr => "ctr"
  | tar => "tar"

end Via

/-- Branches to a register. The target is read before the count or link register changes. -/
def toRegister (w : Insn) (via : Via) : Lift Unit := do
  reservedZero w (w.slice 16 3) "branch-to-register bits 16..18"
  let env ← read
  let o := BranchOptions.decode w.bo
  invalidIf w (via == .ctr && o.decrement) "bcctr decrementing CTR"
  if o.unconditional then listed s!"b{via.name}{linkMark w}"
  else listed s!"bc{via.name}{linkMark w} {Text.hexAtLeast 2 w.bo},{w.bi}"
  let target ← bind (bin (← wordOp .and) (← getSlot via.slot) (env.imm (~~~3)))
  countDown o
  let test ← if o.unconditional then pure none else some <$> taken o w.bi
  if w.lk then link
  if let some t := test then exit (un .not1 t) .boring env.nia
  if via = .lr ∧ o.unconditional ∧ !w.lk ∧ env.abi.zapAtReturn then redzoneHint target
  jumpTo target (if w.lk then .call else if via = .lr then .ret else .boring)

/-- Lifts an instruction of the family. -/
def lift (w : Insn) : Lift Unit :=
  match w.opcode with
  | 18 => immediate w
  | 16 => conditional w
  | 19 => match w.xo10 with
    | 16 => toRegister w .lr
    | 528 => toRegister w .ctr
    | 560 => toRegister w .tar
    | _ => unrecognized w "branch XL-form"
  | _ => unrecognized w "branch"

end Branch

end PowerLift
