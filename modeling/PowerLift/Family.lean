import PowerLift.Family.Arithmetic
import PowerLift.Family.Branch
import PowerLift.Family.Cipher
import PowerLift.Family.Comparison
import PowerLift.Family.ConditionRegister
import PowerLift.Family.DecimalFloat
import PowerLift.Family.LoadStore
import PowerLift.Family.Logic
import PowerLift.Family.Multiple
import PowerLift.Family.Reservation
import PowerLift.Family.Rotate
import PowerLift.Family.System
import PowerLift.Family.Transaction
import PowerLift.Family.Trap
import PowerLift.Family.VectorFloat
import PowerLift.Family.VectorScalarMemory

/-!
# Instruction families

Instructions that decode alike form a family. A family reads the rest of the word itself and
refuses what it does not know.
-/

namespace PowerLift

/-- A group of instructions that are lifted together. -/
inductive Family where
  | arithmetic | comparison | logic | rotate | loadStore | multiple | branch | conditionRegister
  | trap | reservation | system | transaction | floatingPoint | decimalFloat | vectorInteger
  | vectorFloat | vectorScalarMemory | vectorScalar | cipher
  deriving DecidableEq, Repr, Inhabited

namespace Family

def all : List Family :=
  [arithmetic, comparison, logic, rotate, loadStore, multiple, branch, conditionRegister, trap,
   reservation, system, transaction, floatingPoint, decimalFloat, vectorInteger, vectorFloat,
   vectorScalarMemory, vectorScalar, cipher]

/-- The name of a family in diagnostics. -/
def name : Family → String
  | arithmetic => "integer"
  | comparison => "compare"
  | logic => "logical"
  | rotate => "rotate"
  | loadStore => "load/store"
  | multiple => "multiple/string"
  | branch => "branch"
  | conditionRegister => "condition register"
  | trap => "trap"
  | reservation => "atomic"
  | system => "system"
  | transaction => "transactional memory"
  | floatingPoint => "floating point"
  | decimalFloat => "decimal floating point"
  | vectorInteger => "altivec"
  | vectorFloat => "altivec-fp"
  | vectorScalarMemory => "vsx"
  | vectorScalar => "vsx-xx"
  | cipher => "crypto"

/-- The family that a name denotes. -/
def ofName? (s : String) : Option Family :=
  all.find? (·.name == s)

/-- Lifts a word as an instruction of the family. -/
def lift : Family → Insn → Lift Unit
  | arithmetic => Arithmetic.lift
  | comparison => Comparison.lift
  | logic => Logic.lift
  | rotate => Rotate.lift
  | loadStore => LoadStore.lift
  | multiple => Multiple.lift
  | branch => Branch.lift
  | conditionRegister => ConditionRegister.lift
  | trap => Trap.lift
  | reservation => Reservation.lift
  | system => System.lift
  | transaction => Transaction.lift
  | floatingPoint => FloatingPoint.lift
  | decimalFloat => DecimalFloat.lift
  | vectorInteger => VectorInteger.lift
  | vectorFloat => VectorFloat.lift
  | vectorScalarMemory => VectorScalarMemory.lift
  | vectorScalar => VectorScalar.lift
  | cipher => Cipher.lift

end Family

end PowerLift
