import PowerLift.Insn.Word
import PowerLift.Stage
import PowerLift.State.Layout
import PowerLift.Target.Processor

/-!
# Lifting one instruction

The code of an instruction is emitted in a monad that reads the guest's configuration and stages
statements. It stops for a fault or for a refusal; what was staged until then stays visible, so
that a caller can drop or inspect it.
-/

namespace PowerLift

/-- What is to be decoded after an instruction. -/
inductive Continuation where
  /-- The instruction behind this one. -/
  | continue
  /-- The instruction at a target, within the same block. -/
  | resteer (target : BitVec 64)
  /-- Nothing: the instruction address is written and the block ends. -/
  | stop (kind : JumpKind)
  deriving DecidableEq, Repr, Inhabited

/-- What lifting an instruction depends on. -/
structure Env where
  arch : Arch
  /-- Byte order of emitted memory accesses and of register halves. -/
  host : ByteOrder := .little
  /-- Address of the instruction. -/
  cia : BitVec 64
  /-- Address of the first instruction of the block. -/
  blockStart : BitVec 64
  features : Features
  info : Processor
  abi : CallConvention
  /-- The variant whose layout the guest state has. -/
  layout : Arch
  /-- Whether a branch may be followed within the block. -/
  mayResteer : BitVec 64 → Bool
  deriving Inhabited

/-- Severity of a diagnostic. -/
inductive Severity where
  | debug | info | warn
  deriving DecidableEq, Repr, Inhabited

namespace Severity

/-- The written name of a severity. -/
def name : Severity → String
  | debug => "debug"
  | info => "info"
  | warn => "warn"

end Severity

/-- A diagnostic. -/
structure LogLine where
  severity : Severity
  text : String
  deriving DecidableEq, Repr, Inhabited

/-- What lifting an instruction has produced so far. -/
structure Progress where
  stage : Stage
  next : Continuation := .continue
  /-- Disassembly lines. -/
  listing : Array String := #[]
  log : Array LogLine := #[]
  deriving Repr, Inhabited

/-- Why lifting stopped before its end. -/
inductive Stop where
  | fault (f : Fault)
  | refuse (r : Refusal)
  deriving DecidableEq, Repr, Inhabited

/-- Lifting: reads the configuration, stages code, and may stop. -/
abbrev Lift := ReaderT Env (ExceptT Stop (StateM Progress))

namespace Lift

/-- Runs a lifting; what it staged is returned also where it stopped. -/
def exec {α : Type} (env : Env) (p : Progress) (m : Lift α) : Except Stop α × Progress :=
  ExceptT.run (m env) p

def fault {α : Type} (f : Fault) : Lift α := throw (.fault f)

/-- Takes over the result of a check. -/
def ofExcept {α : Type} : Except Fault α → Lift α
  | .ok a => pure a
  | .error f => fault f

/-- Refuses the word. -/
def refuse {α : Type} (w : Insn) (reason : Reason) : Lift α := throw (.refuse ⟨w.raw, reason⟩)

def unrecognized {α : Type} (w : Insn) (what : String) : Lift α := refuse w (.unrecognized what)

def reserved {α : Type} (w : Insn) (what : String) : Lift α := refuse w (.reservedBits what)

def invalid {α : Type} (w : Insn) (what : String) : Lift α := refuse w (.invalidForm what)

def missing {α : Type} (w : Insn) (ext : Extension) : Lift α := refuse w (.missing ext)

/-- Applies an operation of the stage. -/
def onStage (f : Stage → Except Fault Stage) : Lift Unit := do
  let s ← ofExcept (f (← get).stage)
  modify fun p => { p with stage := s }

/-- Notes a line of disassembly. -/
def listed (line : String) : Lift Unit :=
  modify fun p => { p with listing := p.listing.push line }

/-- Notes a diagnostic. -/
def logged (severity : Severity) (text : String) : Lift Unit :=
  modify fun p => { p with log := p.log.push ⟨severity, text⟩ }

/-- Says what is to be decoded next. -/
def setNext (next : Continuation) : Lift Unit :=
  modify fun p => { p with next }

/-! ## Temporaries and types -/

/-- A temporary that is bound later. -/
def newTemp (ty : Ty) : Lift Nat := do
  let (s, t) := (← get).stage.newTemp ty
  modify fun p => { p with stage := s }
  return t

/-- Binds a temporary made by `newTemp`. -/
def assign (t : Nat) (e : Expr) : Lift Unit := onStage (·.assign t e)

/-- Binds a fresh temporary and returns its index. -/
def bindIndex (e : Expr) : Lift Nat := do
  let (s, t) ← ofExcept ((← get).stage.bind e)
  modify fun p => { p with stage := s }
  return t

/-- Binds a fresh temporary and returns a read of it. -/
def bind (e : Expr) : Lift Expr := return .tmp (← bindIndex e)

/-- The type of an expression. -/
def typeOf (e : Expr) : Lift Ty := do
  ofExcept (e.typeOf (← get).stage.tempTy)

/-! ## Mode -/

/-- Whether general registers have 64 bits. -/
def mode64 : Lift Bool := return (← read).arch.is64

/-- The type of a general register. -/
def wordTy : Lift Ty := return (← read).arch.wordTy

/-- The width of a general register. -/
def word : Lift Word := return (← read).arch.word

/-- The member of an operator family for general registers. -/
def wordOp (op : SizedOp) : Lift Op := return op.atWidth (← word).width

end Lift

/-- The member of an operator family for a type. -/
def SizedOp.forTy (op : SizedOp) (ty : Ty) : Except Fault Op :=
  match Width.ofTy? ty with
  | some w => .ok (op.atWidth w)
  | none => .error (.noSizedOp op ty)

namespace Env

/-- An address cut to the width of a general register. -/
def cutAddress (env : Env) (a : BitVec 64) : BitVec 64 :=
  if env.arch.is64 then a else a &&& 0xFFFFFFFF

/-- The address of the instruction behind this one. -/
def nia (env : Env) : BitVec 64 := env.cutAddress (env.cia + 4)

/-- An address literal of the width of a general register. -/
def address (env : Env) (v : BitVec 64) : Const :=
  if env.arch.is64 then .u64 v else .u32 (v.setWidth 32)

/-- A literal of the width of a general register. -/
def imm (env : Env) (v : BitVec 64) : Expr := .const (env.address v)

/-- The low 32 bits of a word-sized value. -/
def low32 (env : Env) (e : Expr) : Expr :=
  if env.arch.is64 then .un (.cast .low64to32) e else e

/-- A word-sized value as 64 bits. -/
def to64 (env : Env) (e : Expr) (signed : Bool) : Expr :=
  if env.arch.is64 then e
  else .un (.cast (if signed then .sext32to64 else .zext32to64)) e

end Env

namespace Lift

/-- A literal of the width of a general register. -/
def imm (v : BitVec 64) : Lift Expr := return (← read).imm v

def low32 (e : Expr) : Lift Expr := return (← read).low32 e

def to64 (e : Expr) (signed : Bool) : Lift Expr := return (← read).to64 e signed

/-- A narrow value widened to a general register. -/
def widen (e : Expr) (signed : Bool) : Lift Expr := do
  let source ← typeOf e
  let target ← wordTy
  if source = target then return e
  let cast : Cast ← match source, target, signed with
    | .i8, .i32, false => pure .zext8to32
    | .i8, .i32, true => pure .sext8to32
    | .i8, .i64, false => pure .zext8to64
    | .i8, .i64, true => pure .sext8to64
    | .i16, .i32, false => pure .zext16to32
    | .i16, .i32, true => pure .sext16to32
    | .i16, .i64, false => pure .zext16to64
    | .i16, .i64, true => pure .sext16to64
    | .i32, .i64, false => pure .zext32to64
    | .i32, .i64, true => pure .sext32to64
    | .i1, .i32, _ => pure .zext1to32
    | .i1, .i64, _ => pure .zext1to64
    | _, _, _ => fault (.widen source target signed)
  return .un (.cast cast) e

/-- A value of a general register narrowed to a type. -/
def narrow (e : Expr) (target : Ty) : Lift Expr := do
  let source ← typeOf e
  if source = target then return e
  let cast : Cast ← match source, target with
    | .i64, .i32 => pure .low64to32
    | .i64, .i16 => pure .low64to16
    | .i64, .i8 => pure .low64to8
    | .i32, .i16 => pure .low32to16
    | .i32, .i8 => pure .low32to8
    | _, _ => fault (.narrow source target)
  return .un (.cast cast) e

end Lift

end PowerLift
