import PowerLift.Family.Basic

/-!
# Integer loads and stores

Each instruction is a `Transfer` and an effective address. One function emits them all: the access,
the extension or byte reversal, and the update of the base register.
-/

namespace PowerLift.LoadStore

open Lift
open PowerLift.Expr (un bin)

/-- What a load or store transfers. -/
structure Transfer where
  name : String
  ty : Ty
  store : Bool := false
  /-- The value is sign-extended. -/
  signed : Bool := false
  /-- The base register receives the address. -/
  update : Bool := false
  /-- The bytes of the value are reversed. -/
  reversed : Bool := false
  deriving DecidableEq, Repr, Inhabited

namespace Transfer

/-- Transfers with an immediate displacement, by primary opcode. -/
def ofOpcode? : Nat → Option Transfer
  | 32 => some { name := "lwz", ty := .i32 }
  | 33 => some { name := "lwzu", ty := .i32, update := true }
  | 34 => some { name := "lbz", ty := .i8 }
  | 35 => some { name := "lbzu", ty := .i8, update := true }
  | 36 => some { name := "stw", ty := .i32, store := true }
  | 37 => some { name := "stwu", ty := .i32, store := true, update := true }
  | 38 => some { name := "stb", ty := .i8, store := true }
  | 39 => some { name := "stbu", ty := .i8, store := true, update := true }
  | 40 => some { name := "lhz", ty := .i16 }
  | 41 => some { name := "lhzu", ty := .i16, update := true }
  | 42 => some { name := "lha", ty := .i16, signed := true }
  | 43 => some { name := "lhau", ty := .i16, signed := true, update := true }
  | 44 => some { name := "sth", ty := .i16, store := true }
  | 45 => some { name := "sthu", ty := .i16, store := true, update := true }
  | _ => none

/-- Transfers with an indexed address, by extended opcode. -/
def ofIndexed? : Nat → Option Transfer
  | 23 => some { name := "lwzx", ty := .i32 }
  | 55 => some { name := "lwzux", ty := .i32, update := true }
  | 87 => some { name := "lbzx", ty := .i8 }
  | 119 => some { name := "lbzux", ty := .i8, update := true }
  | 279 => some { name := "lhzx", ty := .i16 }
  | 311 => some { name := "lhzux", ty := .i16, update := true }
  | 343 => some { name := "lhax", ty := .i16, signed := true }
  | 375 => some { name := "lhaux", ty := .i16, signed := true, update := true }
  | 21 => some { name := "ldx", ty := .i64 }
  | 53 => some { name := "ldux", ty := .i64, update := true }
  | 341 => some { name := "lwax", ty := .i32, signed := true }
  | 373 => some { name := "lwaux", ty := .i32, signed := true, update := true }
  | 151 => some { name := "stwx", ty := .i32, store := true }
  | 183 => some { name := "stwux", ty := .i32, store := true, update := true }
  | 215 => some { name := "stbx", ty := .i8, store := true }
  | 247 => some { name := "stbux", ty := .i8, store := true, update := true }
  | 407 => some { name := "sthx", ty := .i16, store := true }
  | 439 => some { name := "sthux", ty := .i16, store := true, update := true }
  | 149 => some { name := "stdx", ty := .i64, store := true }
  | 181 => some { name := "stdux", ty := .i64, store := true, update := true }
  | 790 => some { name := "lhbrx", ty := .i16, reversed := true }
  | 534 => some { name := "lwbrx", ty := .i32, reversed := true }
  | 532 => some { name := "ldbrx", ty := .i64, reversed := true }
  | 918 => some { name := "sthbrx", ty := .i16, store := true, reversed := true }
  | 662 => some { name := "stwbrx", ty := .i32, store := true, reversed := true }
  | 660 => some { name := "stdbrx", ty := .i64, store := true, reversed := true }
  | _ => none

/-- Transfers with a doubleword displacement, by primary and extended opcode. -/
def ofDoubleword? : Nat → Nat → Option Transfer
  | 58, 0 => some { name := "ld", ty := .i64 }
  | 58, 1 => some { name := "ldu", ty := .i64, update := true }
  | 58, 2 => some { name := "lwa", ty := .i32, signed := true }
  | 62, 0 => some { name := "std", ty := .i64, store := true }
  | 62, 1 => some { name := "stdu", ty := .i64, store := true, update := true }
  | _, _ => none

end Transfer

/-- The bytes of a value in reverse order. -/
def reverseBytes : Ty → Expr → Expr
  | .i16, e => un .reverse16 e
  | .i32, e => un (.reverse .w32) e
  | .i64, e => un (.reverse .w64) e
  | _, e => e

/-- Emits a transfer between the target register and memory at `ea`. -/
def emit (w : Insn) (x : Transfer) (ea : Expr) : Lift Unit := do
  if x.ty = .i64 ∨ (x.ty = .i32 ∧ x.signed) then needMode64 w "doubleword access"
  if x.update then
    invalidIf w (w.ra == 0) "update form with rA = 0"
    invalidIf w (!x.store && w.ra == w.rd) "update form with rA = rD"
  let ea ← bind ea
  let ordered (e : Expr) : Expr := if x.reversed then reverseBytes x.ty e else e
  if x.store then
    store ea (ordered (← narrow (← getGpr w.rd) x.ty))
  else
    putGpr w.rd (← widen (ordered (← load x.ty ea)) x.signed)
  if x.update then putGpr w.ra ea

/-- Emits a transfer with a displacement. -/
def displaced (w : Insn) (x : Transfer) (disp : Int) : Lift Unit := do
  listed s!"{x.name} r{w.rd},{disp}(r{w.ra})"
  let d := BitVec.ofInt 64 disp
  emit w x (← if x.update then eaDisp w.ra d else eaOr0Disp w.ra d)

def immediate (w : Insn) : Lift Unit :=
  match Transfer.ofOpcode? w.opcode with
  | some x => displaced w x w.simm16
  | none => unrecognized w "D-form load/store"

def doubleword (w : Insn) : Lift Unit := do
  needMode64 w "DS-form load/store"
  match Transfer.ofDoubleword? w.opcode w.xo2 with
  | some x => displaced w x w.ds
  | none => unrecognized w "DS-form load/store"

def indexed (w : Insn) : Lift Unit :=
  match Transfer.ofIndexed? w.xo10 with
  | some x => do
      reservedClear w w.record "load/store bit 31"
      listed s!"{x.name} r{w.rd},r{w.ra},r{w.rb}"
      emit w x (← if x.update then eaIdx w.ra w.rb else eaOr0Idx w.ra w.rb)
  | none => unrecognized w "X-form load/store"

/-- A pair of registers as one access of sixteen bytes; the even register holds the high half. -/
def quadword (w : Insn) (isStore : Bool) : Lift Unit := do
  needMode64 w "quadword access"
  invalidIf w (w.rd % 2 != 0) "odd register pair"
  let disp ← if isStore then pure w.ds else do
    reservedZero w (w.slice 28 4) "lq reserved"
    invalidIf w (w.rd == w.ra) "lq with rA in the target pair"
    pure ((BitVec.ofNat 12 w.dq).toInt * 16)
  let name := if isStore then "stq" else "lq"
  listed s!"{name} r{w.rd},{disp}(r{w.ra})"
  let ea ← bind (← eaOr0Disp w.ra (.ofInt 64 disp))
  let (hiAddr, loAddr) ← quadHalves ea
  if isStore then
    store hiAddr (← getGpr w.rd)
    store loAddr (← getGpr (w.rd + 1))
  else
    let hi ← bind (← load .i64 hiAddr)
    let lo ← bind (← load .i64 loAddr)
    putGpr w.rd hi
    putGpr (w.rd + 1) lo

/-- Lifts an instruction of the family. -/
def lift (w : Insn) : Lift Unit :=
  if 32 ≤ w.opcode ∧ w.opcode ≤ 45 then immediate w
  else match w.opcode with
    | 56 => quadword w false
    | 62 => if w.xo2 = 2 then quadword w true else doubleword w
    | 58 => doubleword w
    | 31 => indexed w
    | _ => unrecognized w "integer load/store"

end PowerLift.LoadStore
