import PowerLift.Block

/-!
# Staging one instruction

The code of one instruction is staged before it becomes part of a block. A stage numbers its
temporaries on from those of the block, binds each at most once, lets none be read before it is
bound, and admits well-typed statements only. Each operation either adds its statement or faults
and changes nothing; only `commit` touches the block.
-/

namespace PowerLift

/-- The staged code of one instruction. -/
structure Stage where
  /-- The types of the temporaries that the block already has. -/
  outer : Array Ty
  /-- The types of the staged temporaries. -/
  types : Array Ty := #[]
  /-- Which staged temporaries are bound. -/
  bound : Array Bool := #[]
  stmts : Array Stmt := #[]
  deriving Repr, Inhabited

namespace Stage

/-- An empty stage for a block. -/
def start (block : Block) : Stage := { outer := block.types }

/-- The index of the first staged temporary. -/
def base (s : Stage) : Nat := s.outer.size

def isEmpty (s : Stage) : Bool := s.stmts.isEmpty

/-- The type of a temporary of the block or of the stage. -/
def tempTy (s : Stage) (t : Nat) : Except Fault Ty :=
  if t < s.base then
    match s.outer[t]? with
    | some ty => .ok ty
    | none => .error (.indexRange s.outer.size t)
  else
    match s.types[t - s.base]? with
    | some ty => .ok ty
    | none => .error (.indexRange s.types.size (t - s.base))

/-- Adds a temporary that is not bound yet. -/
def newTemp (s : Stage) (ty : Ty) : Stage × Nat :=
  ({ s with types := s.types.push ty, bound := s.bound.push false }, s.base + s.types.size)

/-- A staged temporary may be read once it is bound, one of the block always. -/
def checkRead (s : Stage) (t : Nat) : Except Fault Unit :=
  if t < s.base then .ok ()
  else
    match s.bound[t - s.base]? with
    | some true => .ok ()
    | some false => .error (.readUnbound t)
    | none => .error (.indexRange s.bound.size (t - s.base))

/-- The type of an expression that reads bound temporaries only. -/
def check (s : Stage) (e : Expr) : Except Fault Ty := do
  e.temps.forM s.checkRead
  e.check s.tempTy

/-- Addresses have the type of a general register. -/
def checkAddress (s : Stage) (e : Expr) : Except Fault Unit := do
  let ty ← s.check e
  if ty = .i32 ∨ ty = .i64 then return () else throw (.address ty)

/-- Marks a staged temporary as bound. -/
def markBound (s : Stage) (t : Nat) : Except Fault Stage :=
  if t < s.base then .error (.foreignTemp t)
  else
    match s.bound[t - s.base]? with
    | some false => .ok { s with bound := s.bound.setIfInBounds (t - s.base) true }
    | some true => .error (.boundTwice t)
    | none => .error (.indexRange s.bound.size (t - s.base))

/-- Adds a statement without looking at it. -/
def push (s : Stage) (stmt : Stmt) : Stage := { s with stmts := s.stmts.push stmt }

/-- Binds an existing temporary. -/
def assign (s : Stage) (t : Nat) (e : Expr) : Except Fault Stage := do
  let ty ← s.check e
  let want ← s.tempTy t
  if want ≠ ty then throw (.assignTy t want ty)
  let s ← s.markBound t
  return s.push (.bind t e)

/-- Binds a fresh temporary of the expression's type. -/
def bind (s : Stage) (e : Expr) : Except Fault (Stage × Nat) := do
  let ty ← s.check e
  let t := s.base + s.types.size
  return ({ s with types := s.types.push ty, bound := s.bound.push true }.push (.bind t e), t)

/-- Marks the start of a guest instruction. -/
def mark (s : Stage) (addr : BitVec 64) (len delta : Nat) : Stage := s.push (.mark addr len delta)

/-- Writes guest state of a type. -/
def put (s : Stage) (offset : Nat) (ty : Ty) (e : Expr) : Except Fault Stage := do
  let got ← s.check e
  if got ≠ ty then throw (.putTy got ty offset)
  return s.push (.put offset e)

/-- Writes memory. -/
def store (s : Stage) (order : ByteOrder) (addr value : Expr) : Except Fault Stage := do
  s.checkAddress addr
  let ty ← s.check value
  if ty = .i1 then throw .storeTruth
  return s.push (.store order addr value)

/-- Leaves the block where `guard` holds. -/
def exit (s : Stage) (guard : Expr) (kind : JumpKind) (target : Const) (ipOffset : Nat) :
    Except Fault Stage := do
  let ty ← s.check guard
  if ty ≠ .i1 then throw (.exitGuard ty)
  if !target.isAddress then throw (.exitTarget target)
  return s.push (.exit guard kind target ipOffset)

/-- Reads memory with a reservation into an existing temporary. -/
def loadLinked (s : Stage) (order : ByteOrder) (t : Nat) (addr : Expr) : Except Fault Stage := do
  s.checkAddress addr
  let ty ← s.tempTy t
  if !ty.isInt then throw .linkedResult
  let s ← s.markBound t
  return s.push (.loadLinked order t addr)

/-- Writes memory under a reservation. -/
def storeConditional (s : Stage) (order : ByteOrder) (t : Nat) (addr value : Expr) :
    Except Fault Stage := do
  s.checkAddress addr
  let _ ← s.check value
  let ty ← s.tempTy t
  if ty ≠ .i1 then throw (.conditionalResult ty)
  let s ← s.markBound t
  return s.push (.storeConditional order t addr value)

def fence (s : Stage) : Stage := s.push .fence

/-- Calls a helper with effects. -/
def call (s : Stage) (c : EffectCall) : Except Fault Stage := do
  let ty ← s.check c.guard
  if ty ≠ .i1 then throw (.callGuard ty)
  c.args.forM fun a => discard (s.check a)
  if let some m := c.memory then s.checkAddress m.addr
  let s ← match c.result with
    | some t => s.markBound t
    | none => pure s
  return s.push (.call c)

/-- Tells that a range below the stack pointer lost its contents. -/
def hint (s : Stage) (addr : Expr) (len : Nat) (next : Expr) : Except Fault Stage := do
  s.checkAddress addr
  s.checkAddress next
  return s.push (.hint addr len next)

/-- Appends the stage to its block, which must not have gained temporaries meanwhile. -/
def commit (s : Stage) (block : Block) : Except Fault Block :=
  if block.types.size = s.base then
    .ok { block with types := block.types ++ s.types, stmts := block.stmts ++ s.stmts }
  else .error (.blockChanged block.types.size s.base)

end Stage

end PowerLift
