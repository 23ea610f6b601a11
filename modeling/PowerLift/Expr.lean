import PowerLift.Fault

/-!
# Expressions

Expressions are trees over guest-state reads, temporaries, literals and memory reads. Every tree has
a type; `Expr.check` computes it and refuses operands that do not fit their operator.
-/

namespace PowerLift

/-- Routines that lifted code may call. -/
inductive Helper where
  /-- The 64-bit time base. -/
  | readTimeBase
  /-- Class and data group of a decimal value. -/
  | dfpClassify
  /-- Five declets to fifteen packed digits. -/
  | dpdToBcd
  /-- Fifteen packed digits to five declets. -/
  | bcdToDpd
  deriving DecidableEq, Repr, Inhabited

namespace Helper

def all : List Helper := [readTimeBase, dfpClassify, dpdToBcd, bcdToDpd]

/-- The name under which a request asks for a helper. -/
def key : Helper → String
  | readTimeBase => "ReadTimeBase"
  | dfpClassify => "DfpClassify"
  | dpdToBcd => "DpdToBcd"
  | bcdToDpd => "BcdToDpd"

/-- The symbol of a helper in listings. -/
def symbol : Helper → String
  | readTimeBase => "ppc_read_timebase"
  | dfpClassify => "ppc_dfp_classify"
  | dpdToBcd => "ppc_dpd_to_bcd"
  | bcdToDpd => "ppc_bcd_to_dpd"

/-- The number of arguments passed in registers. -/
def params : Helper → Nat
  | readTimeBase => 0
  | dfpClassify => 3
  | dpdToBcd | bcdToDpd => 1

/-- The helper that a key denotes. -/
def ofKey? (s : String) : Option Helper :=
  all.find? (·.key == s)

end Helper

/-- An expression. -/
inductive Expr where
  /-- A read of the guest state at a byte offset. -/
  | get (offset : Nat) (ty : Ty)
  /-- A read of a temporary. -/
  | tmp (t : Nat)
  | const (c : Const)
  | apply (op : Op) (args : List Expr)
  /-- A read of memory. -/
  | load (order : ByteOrder) (ty : Ty) (addr : Expr)
  /-- The second operand where the first holds, else the third. -/
  | ite (cond yes no : Expr)
  /-- A call without effects. -/
  | call (helper : Helper) (ret : Ty) (args : List Expr)
  deriving Repr, Inhabited

namespace Expr

/-! ## Constructors -/

def un (op : Op) (a : Expr) : Expr := .apply op [a]
def bin (op : Op) (a b : Expr) : Expr := .apply op [a, b]
def tri (op : Op) (a b c : Expr) : Expr := .apply op [a, b, c]
def quad (op : Op) (a b c d : Expr) : Expr := .apply op [a, b, c, d]
def u1 (b : Bool) : Expr := .const (.u1 b)
def u8 (v : BitVec 8) : Expr := .const (.u8 v)
def u16 (v : BitVec 16) : Expr := .const (.u16 v)
def u32 (v : BitVec 32) : Expr := .const (.u32 v)
def u64 (v : BitVec 64) : Expr := .const (.u64 v)
def f64 (v : BitVec 64) : Expr := .const (.f64 v)

/-- Any vector, from its two halves. -/
def v128 (hi lo : BitVec 64) : Expr := bin (.cast .cat64toV) (u64 hi) (u64 lo)

/-- A vector from its four words, the most significant first. -/
def ofWords (a b c d : Expr) : Expr :=
  bin (.cast .cat64toV) (bin (.cast .cat32to64) a b) (bin (.cast .cat32to64) c d)

/-- The literal that an expression is, if it is one. -/
def asConst? : Expr → Option Const
  | .const c => some c
  | _ => none

/-! ## Typing -/

/-- The type of an expression; operands are not looked at. -/
def typeOf (env : Nat → Except Fault Ty) : Expr → Except Fault Ty
  | .get _ ty => .ok ty
  | .tmp t => env t
  | .const c => .ok c.ty
  | .apply op _ => .ok op.signature.ret
  | .load _ ty _ => .ok ty
  | .ite _ yes _ => yes.typeOf env
  | .call _ ret _ => .ok ret

mutual

/-- The type of an expression whose operands all fit. -/
def check (env : Nat → Except Fault Ty) : Expr → Except Fault Ty
  | .get _ ty => .ok ty
  | .tmp t => env t
  | .const c => .ok c.ty
  | .apply op args => do
      if op.signature.arity ≠ args.length then
        throw (.arity op op.signature.arity args.length)
      checkOperands env op 0 op.signature.args args
      return op.signature.ret
  | .load _ ty addr => do
      let got ← check env addr
      if got = .i32 ∨ got = .i64 then return ty else throw (.loadAddress got)
  | .ite cond yes no => do
      let c ← check env cond
      if c ≠ .i1 then throw (.iteCondition c)
      let a ← check env yes
      let b ← check env no
      if a = b then return a else throw (.iteArms a b)
  | .call _ ret args => do
      checkEach env args
      return ret

/-- Operands against the types that an operator wants, from operand `i` on. -/
def checkOperands (env : Nat → Except Fault Ty) (op : Op) (i : Nat) :
    List Ty → List Expr → Except Fault Unit
  | want :: wants, arg :: args => do
      let got ← check env arg
      if got ≠ want then throw (.operand op i got want)
      checkOperands env op (i + 1) wants args
  | _, _ => .ok ()

/-- Arguments of a call are well typed, each for itself. -/
def checkEach (env : Nat → Except Fault Ty) : List Expr → Except Fault Unit
  | [] => .ok ()
  | arg :: args => do
      let _ ← check env arg
      checkEach env args

end

mutual

/-- The temporaries that an expression reads, from left to right. -/
def temps : Expr → List Nat
  | .get _ _ | .const _ => []
  | .tmp t => [t]
  | .apply _ args => tempsOf args
  | .load _ _ addr => temps addr
  | .ite cond yes no => temps cond ++ temps yes ++ temps no
  | .call _ _ args => tempsOf args

/-- The temporaries of several expressions in order. -/
def tempsOf : List Expr → List Nat
  | [] => []
  | e :: es => temps e ++ tempsOf es

end

end Expr

end PowerLift
