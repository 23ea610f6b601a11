import PowerLift.Expr

/-!
# Statements and blocks

All effects are statements. A block is a list of statements over its temporaries, with a final
target that whoever ends the block supplies.
-/

namespace PowerLift

/-- How a call touches a range of memory or guest state. -/
inductive Access where
  | read | write | modify
  deriving DecidableEq, Repr, Inhabited

namespace Access

/-- The name under which a request asks for an access. -/
def ofName? : String → Option Access
  | "Read" => some read
  | "Write" => some write
  | "Modify" => some modify
  | _ => none

/-- The tag of an access in listings. -/
def tag : Access → String
  | read => "RdFX"
  | write => "WrFX"
  | modify => "MoFX"

end Access

/-- A memory range that a call touches. -/
structure MemEffect where
  access : Access
  addr : Expr
  size : Nat
  deriving Repr, Inhabited

/-- A range of the guest state that a call touches. -/
structure StateEffect where
  access : Access
  offset : Nat
  size : Nat
  deriving DecidableEq, Repr, Inhabited

/-- A call with effects. -/
structure EffectCall where
  helper : Helper
  /-- The call happens where this truth value holds. -/
  guard : Expr
  args : List Expr
  result : Option Nat
  memory : Option MemEffect
  state : List StateEffect
  deriving Repr, Inhabited

/-- A statement. -/
inductive Stmt where
  /-- The start of a guest instruction. -/
  | mark (addr : BitVec 64) (len : Nat) (delta : Nat)
  /-- Binds a temporary. -/
  | bind (t : Nat) (value : Expr)
  /-- Writes the guest state. -/
  | put (offset : Nat) (value : Expr)
  /-- Writes memory. -/
  | store (order : ByteOrder) (addr value : Expr)
  /-- Leaves the block for a fixed address where the guard holds. -/
  | exit (guard : Expr) (kind : JumpKind) (target : Const) (ipOffset : Nat)
  /-- Reads memory and takes a reservation. -/
  | loadLinked (order : ByteOrder) (t : Nat) (addr : Expr)
  /-- Writes memory where the reservation still stands; `t` tells whether it did. -/
  | storeConditional (order : ByteOrder) (t : Nat) (addr value : Expr)
  /-- A memory barrier. -/
  | fence
  | call (c : EffectCall)
  /-- The `len` bytes from `base` on lost their contents as control went to `next`. -/
  | hint (base : Expr) (len : Nat) (next : Expr)
  deriving Repr, Inhabited

/-- A block of lifted code. -/
structure Block where
  /-- The type of each temporary. -/
  types : Array Ty := #[]
  stmts : Array Stmt := #[]
  next : Option Expr := none
  kind : JumpKind := .boring
  /-- Offset of the instruction address in the guest state. -/
  ipOffset : Nat
  deriving Repr, Inhabited

namespace Block

/-- A block without statements. -/
def empty (ipOffset : Nat) : Block := { ipOffset }

/-- Adds a temporary; its index is the number of those before it. -/
def newTemp (b : Block) (ty : Ty) : Block × Nat :=
  ({ b with types := b.types.push ty }, b.types.size)

/-- The type of a temporary. -/
def tempTy (b : Block) (t : Nat) : Except Fault Ty :=
  match b.types[t]? with
  | some ty => .ok ty
  | none => .error (.indexRange b.types.size t)

end Block

end PowerLift
