import PowerLift.Lift.Registers

/-!
# Memory, control flow and vector lanes

Accesses use one byte order throughout. Effective addresses treat register zero as the number zero
where the instruction says so.
-/

namespace PowerLift.Lift

open PowerLift.Expr (un bin)

/-- A read of memory. -/
def load (ty : Ty) (addr : Expr) : Lift Expr := return .load (← read).host ty addr

/-- A write of memory. -/
def store (addr value : Expr) : Lift Unit := do
  let env ← read
  onStage (·.store env.host addr value)

/-! ## Effective addresses -/

/-- A register plus a displacement, register zero reading as zero. -/
def eaOr0Disp (ra : Nat) (disp : BitVec 64) : Lift Expr := do
  let d ← imm disp
  if ra = 0 then return d else return bin (← wordOp .add) (← getGpr ra) d

/-- A register plus a displacement. -/
def eaDisp (ra : Nat) (disp : BitVec 64) : Lift Expr := do
  return bin (← wordOp .add) (← getGpr ra) (← imm disp)

/-- The sum of two registers, the first reading as zero where it is register zero. -/
def eaOr0Idx (ra rb : Nat) : Lift Expr := do
  if ra = 0 then getGpr rb
  else return bin (← wordOp .add) (← getGpr ra) (← getGpr rb)

/-- The sum of two registers. -/
def eaIdx (ra rb : Nat) : Lift Expr := do
  return bin (← wordOp .add) (← getGpr ra) (← getGpr rb)

/-- A register, register zero reading as zero. -/
def eaOr0 (ra : Nat) : Lift Expr := if ra = 0 then imm 0 else getGpr ra

/-- An address some bytes further. -/
def addrPlus (addr : Expr) (offset : BitVec 64) : Lift Expr := do
  if offset = 0 then return addr
  return bin (← wordOp .add) addr (← imm offset)

/-- The addresses of the high and the low half of the quadword at an address. -/
def quadHalves (ea : Expr) : Lift (Expr × Expr) := do
  let other ← addrPlus ea 8
  match (← read).host with
  | .big => return (ea, other)
  | .little => return (other, ea)

/-! ## Control flow -/

/-- Leaves the block for a fixed address where `guard` holds. -/
def exit (guard : Expr) (kind : JumpKind) (target : BitVec 64) : Lift Unit := do
  let env ← read
  let ip ← ofExcept (Layout.offset env.layout SpecialSlot.cia)
  onStage (·.exit guard kind (env.address (env.cutAddress target)) ip)

/-- Leaves the block with a bus error at this instruction where an address is not aligned. -/
def requireAligned (addr : Expr) (align : BitVec 64) : Lift Unit := do
  if align = 0 ∨ align &&& (align - 1) ≠ 0 then fault .alignment
  if align = 1 then return
  let low := bin (← wordOp .and) addr (← imm (align - 1))
  let guard := bin (← wordOp .cmpNE) low (← imm 0)
  exit guard .sigBus (← read).cia

/-- Writes the instruction address and ends the block. -/
def jumpTo (target : Expr) (kind : JumpKind) : Lift Unit := do
  putSlot SpecialSlot.cia target
  setNext (.stop kind)

/-- Ends the block at the next instruction. -/
def stopAtNext (kind : JumpKind) : Lift Unit := do
  jumpTo (← imm (← read).nia) kind

/-- Tells that the reserved area below the stack pointer lost its contents. -/
def redzoneHint (next : Expr) : Lift Unit := do
  let size := (← read).abi.redzoneSize
  if size = 0 then return
  let addr := bin (← wordOp .sub) (← getGpr 1) (← imm (size.setWidth 64))
  onStage (·.hint addr size.toNat next)

/-! ## Vector lanes, the most significant first -/

/-- The two halves of a vector. -/
def splitHalves (v : Expr) : Lift (Expr × Expr) := do
  let t ← bind v
  let hi ← bind (un (.cast .highVto64) t)
  let lo ← bind (un (.cast .lowVto64) t)
  return (hi, lo)

/-- The four words of a vector. -/
def splitWords (v : Expr) : Lift (List Expr) := do
  let (hi, lo) ← splitHalves v
  [un (.cast .high64to32) hi, un (.cast .low64to32) hi,
   un (.cast .high64to32) lo, un (.cast .low64to32) lo].mapM bind

/-- The four words of a vector, each widened to 64 bits. -/
def splitWords64 (v : Expr) (signed : Bool) : Lift (List Expr) := do
  let op : Cast := if signed then .sext32to64 else .zext32to64
  (← splitWords v).mapM fun w => bind (un op w)

end PowerLift.Lift
