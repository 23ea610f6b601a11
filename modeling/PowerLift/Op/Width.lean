import PowerLift.Ty

/-!
# Widths

Operators come in families indexed by the width of their operands. Three index types say which
widths a family has: all four, the two widths of a machine word, or the three lane widths that
have a double.
-/

namespace PowerLift

/-- Widths of scalar integers and of vector lanes. -/
inductive Width where
  | w8 | w16 | w32 | w64
  deriving DecidableEq, Repr, Inhabited

namespace Width

def all : List Width := [w8, w16, w32, w64]

def bits : Width → Nat
  | w8 => 8
  | w16 => 16
  | w32 => 32
  | w64 => 64

/-- The integer type of a width. -/
def ty : Width → Ty
  | w8 => .i8
  | w16 => .i16
  | w32 => .i32
  | w64 => .i64

/-- The width of an integer type that has one. -/
def ofTy? : Ty → Option Width
  | .i8 => some w8
  | .i16 => some w16
  | .i32 => some w32
  | .i64 => some w64
  | _ => none

/-- The shape of a vector cut into lanes of a width, such as `8x16`. -/
def shape (w : Width) : String := s!"{w.bits}x{128 / w.bits}"

/-- The number of lanes of a vector. -/
def lanes (w : Width) : Nat := 128 / w.bits

end Width

/-- The two widths of a machine word. -/
inductive Word where
  | w32 | w64
  deriving DecidableEq, Repr, Inhabited

namespace Word

def all : List Word := [w32, w64]

def width : Word → Width
  | w32 => .w32
  | w64 => .w64

def bits (w : Word) : Nat := w.width.bits

def ty (w : Word) : Ty := w.width.ty

end Word

/-- The lane widths that have a lane of twice the width. -/
inductive Narrow where
  | w8 | w16 | w32
  deriving DecidableEq, Repr, Inhabited

namespace Narrow

def all : List Narrow := [w8, w16, w32]

def width : Narrow → Width
  | w8 => .w8
  | w16 => .w16
  | w32 => .w32

/-- The lane width twice as wide. -/
def double : Narrow → Width
  | w8 => .w16
  | w16 => .w32
  | w32 => .w64

def bits (w : Narrow) : Nat := w.width.bits

def lanes (w : Narrow) : Nat := w.width.lanes

end Narrow

/-- Whether an operator reads its operands as signed or unsigned numbers. -/
inductive Sign where
  | signed | unsigned
  deriving DecidableEq, Repr, Inhabited

namespace Sign

def all : List Sign := [signed, unsigned]

/-- The letter of a signedness in operator names. -/
def letter : Sign → String
  | signed => "S"
  | unsigned => "U"

/-- Signedness from a truth value. -/
def ofSigned (b : Bool) : Sign := if b then signed else unsigned

end Sign

/-- Operand and result types of an operator. -/
structure Signature where
  ret : Ty
  args : List Ty
  deriving DecidableEq, Repr, Inhabited

namespace Signature

/-- The number of operands. -/
def arity (s : Signature) : Nat := s.args.length

/-- One operand. -/
abbrev unary (ret a : Ty) : Signature := ⟨ret, [a]⟩

/-- Two operands. -/
abbrev binary (ret a b : Ty) : Signature := ⟨ret, [a, b]⟩

/-- Two operands of the result's type. -/
abbrev same (ty : Ty) : Signature := ⟨ty, [ty, ty]⟩

end Signature

end PowerLift
