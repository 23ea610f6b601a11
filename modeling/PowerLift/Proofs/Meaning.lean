import PowerLift.Proofs.Execution
import PowerLift.Proofs.FlagBits

/-!
# The meaning of operators

Most results hold whatever operators compute. Where single bits matter, bitwise operators, shifts
and conversions between integers have their usual meaning on operands of their types. All other
operators stay free.
-/

namespace PowerLift

variable {M : Type}

/-- The bits of a value, cut to a type. -/
def Value.cut (v : Value) (ty : Ty) : BitVec ty.bits := v.bits.setWidth ty.bits

@[simp] theorem Value.cut_mk {ty : Ty} (x : BitVec ty.bits) : (⟨ty, x⟩ : Value).cut ty = x :=
  BitVec.setWidth_eq x

theorem Value.exists_eq {v : Value} {ty : Ty} (h : v.ty = ty) : ∃ x, v = ⟨ty, x⟩ := by
  subst h
  exact ⟨v.bits, rfl⟩

namespace Value

/-- A byte as a value. -/
def i8 (x : BitVec 8) : Value := ⟨.i8, x⟩

/-- A word of 32 bits as a value. -/
def i32 (x : BitVec 32) : Value := ⟨.i32, x⟩

/-- The low 32 bits of a value. -/
def word (v : Value) : BitVec 32 := v.cut .i32

@[simp] theorem word_i32 (x : BitVec 32) : (i32 x).word = x :=
  BitVec.setWidth_eq x

end Value

namespace Interp

/-- Bits are combined, moved and converted as usual. A shift has a meaning for amounts below the
width only. -/
structure Bitwise (I : Interp M) : Prop where
  or (w : Width) (x y : BitVec w.ty.bits) : I.op (.or w) [⟨w.ty, x⟩, ⟨w.ty, y⟩] = x ||| y
  and (w : Width) (x y : BitVec w.ty.bits) : I.op (.and w) [⟨w.ty, x⟩, ⟨w.ty, y⟩] = x &&& y
  xor (w : Width) (x y : BitVec w.ty.bits) : I.op (.xor w) [⟨w.ty, x⟩, ⟨w.ty, y⟩] = x ^^^ y
  not (w : Width) (x : BitVec w.ty.bits) : I.op (.not w) [⟨w.ty, x⟩] = ~~~x
  shl (w : Width) (x : BitVec w.ty.bits) (k : BitVec 8) (hk : k.toNat < w.bits) :
    I.op (.shl w) [⟨w.ty, x⟩, ⟨.i8, k⟩] = x <<< k.toNat
  shr (w : Width) (x : BitVec w.ty.bits) (k : BitVec 8) (hk : k.toNat < w.bits) :
    I.op (.shr w) [⟨w.ty, x⟩, ⟨.i8, k⟩] = x >>> k.toNat
  cast (c : Cast) (hc : c.isPlain = true) (ty : Ty) (harg : c.signature.args = [ty])
    (x : BitVec ty.bits) : I.op (.cast c) [⟨ty, x⟩] = x.setWidth _

/-- Besides, sums, differences and comparisons for equality are those of numbers modulo the
width. -/
structure Modular (I : Interp M) : Prop extends I.Bitwise where
  add (w : Width) (x y : BitVec w.ty.bits) : I.op (.add w) [⟨w.ty, x⟩, ⟨w.ty, y⟩] = x + y
  sub (w : Width) (x y : BitVec w.ty.bits) : I.op (.sub w) [⟨w.ty, x⟩, ⟨w.ty, y⟩] = x - y
  cmpNE (w : Width) (x y : BitVec w.ty.bits) :
    I.op (.cmpNE w) [⟨w.ty, x⟩, ⟨w.ty, y⟩] = .ofBool (x != y)

/-- Vectors are shifted as a whole and cut to their low word. A shift has a meaning for amounts
below the width only. -/
structure Shifts (I : Interp M) : Prop where
  shrAll (x : BitVec Ty.v128.bits) (k : BitVec 8) (hk : k.toNat < 128) :
    I.op (.vector .shrAll) [⟨.v128, x⟩, ⟨.i8, k⟩] = x >>> k.toNat
  lowVto32 (x : BitVec Ty.v128.bits) : I.op (.cast .lowVto32) [⟨.v128, x⟩] = x.setWidth 32

/-- Comparisons for order yield 8, 4 or 2. -/
def Orders (I : Interp M) : Prop :=
  ∀ (w : Word) (s : Sign) (x y : BitVec w.ty.bits),
    I.op (.cmpORD w s) [⟨w.ty, x⟩, ⟨w.ty, y⟩] ∈ ([8, 4, 2] : List (BitVec w.ty.bits))

/-! ## Values of expressions -/

namespace Bitwise

open PowerLift.Expr (un bin)

variable {I : Interp M} {m : Machine M} {a b : Expr} {w : Width} {x y : BitVec w.ty.bits}

theorem eval_or (hI : I.Bitwise) (ha : a.eval I m = ⟨w.ty, x⟩) (hb : b.eval I m = ⟨w.ty, y⟩) :
    (bin (.or w) a b).eval I m = ⟨w.ty, x ||| y⟩ := by
  simp only [bin, Expr.eval, Expr.evalAll, ha, hb, hI.or]
  rfl

theorem eval_and (hI : I.Bitwise) (ha : a.eval I m = ⟨w.ty, x⟩) (hb : b.eval I m = ⟨w.ty, y⟩) :
    (bin (.and w) a b).eval I m = ⟨w.ty, x &&& y⟩ := by
  simp only [bin, Expr.eval, Expr.evalAll, ha, hb, hI.and]
  rfl

theorem eval_xor (hI : I.Bitwise) (ha : a.eval I m = ⟨w.ty, x⟩) (hb : b.eval I m = ⟨w.ty, y⟩) :
    (bin (.xor w) a b).eval I m = ⟨w.ty, x ^^^ y⟩ := by
  simp only [bin, Expr.eval, Expr.evalAll, ha, hb, hI.xor]
  rfl

theorem eval_not (hI : I.Bitwise) (ha : a.eval I m = ⟨w.ty, x⟩) :
    (un (.not w) a).eval I m = ⟨w.ty, ~~~x⟩ := by
  simp only [un, Expr.eval, Expr.evalAll, ha, hI.not]
  rfl

variable {k : BitVec 8}

theorem eval_shl (hI : I.Bitwise) (ha : a.eval I m = ⟨w.ty, x⟩) (hb : b.eval I m = ⟨.i8, k⟩)
    (hk : k.toNat < w.bits) : (bin (.shl w) a b).eval I m = ⟨w.ty, x <<< k.toNat⟩ := by
  simp only [bin, Expr.eval, Expr.evalAll, ha, hb, hI.shl w x k hk]
  rfl

theorem eval_shr (hI : I.Bitwise) (ha : a.eval I m = ⟨w.ty, x⟩) (hb : b.eval I m = ⟨.i8, k⟩)
    (hk : k.toNat < w.bits) : (bin (.shr w) a b).eval I m = ⟨w.ty, x >>> k.toNat⟩ := by
  simp only [bin, Expr.eval, Expr.evalAll, ha, hb, hI.shr w x k hk]
  rfl

theorem eval_cast (hI : I.Bitwise) {c : Cast} (hc : c.isPlain = true) {ty : Ty}
    (harg : c.signature.args = [ty]) {z : BitVec ty.bits} (ha : a.eval I m = ⟨ty, z⟩) :
    (un (.cast c) a).eval I m = ⟨c.signature.ret, z.setWidth _⟩ := by
  simp only [un, Expr.eval, Expr.evalAll, ha, hI.cast c hc ty harg]
  rfl

section

variable {x y : BitVec 32}

theorem eval_or32 (hI : I.Bitwise) (ha : a.eval I m = .i32 x) (hb : b.eval I m = .i32 y) :
    (bin .or32 a b).eval I m = .i32 (x ||| y) := hI.eval_or ha hb

theorem eval_and32 (hI : I.Bitwise) (ha : a.eval I m = .i32 x) (hb : b.eval I m = .i32 y) :
    (bin .and32 a b).eval I m = .i32 (x &&& y) := hI.eval_and ha hb

theorem eval_xor32 (hI : I.Bitwise) (ha : a.eval I m = .i32 x) (hb : b.eval I m = .i32 y) :
    (bin .xor32 a b).eval I m = .i32 (x ^^^ y) := hI.eval_xor ha hb

theorem eval_not32 (hI : I.Bitwise) (ha : a.eval I m = .i32 x) :
    (un (.not .w32) a).eval I m = .i32 (~~~x) := hI.eval_not ha

theorem eval_shl32 (hI : I.Bitwise) (ha : a.eval I m = .i32 x) {n : Nat} (hk : k.toNat = n)
    (hn : n < 32) : (bin .shl32 a (.u8 k)).eval I m = .i32 (x <<< n) := by
  subst hk
  exact hI.eval_shl ha rfl hn

theorem eval_shr32 (hI : I.Bitwise) (ha : a.eval I m = .i32 x) {n : Nat} (hk : k.toNat = n)
    (hn : n < 32) : (bin .shr32 a (.u8 k)).eval I m = .i32 (x >>> n) := by
  subst hk
  exact hI.eval_shr ha rfl hn

theorem eval_low32to8 (hI : I.Bitwise) (ha : a.eval I m = .i32 x) :
    (un (.cast .low32to8) a).eval I m = .i8 (x.setWidth 8) := hI.eval_cast rfl rfl ha

theorem eval_zext8to32 (hI : I.Bitwise) {x : BitVec 8} (ha : a.eval I m = .i8 x) :
    (un (.cast .zext8to32) a).eval I m = .i32 (x.setWidth 32) := hI.eval_cast rfl rfl ha

end

end Bitwise

section

open PowerLift.Expr (un bin)

variable {I : Interp M} {m : Machine M} {a b : Expr} {w : Width} {x y : BitVec w.ty.bits}

theorem Modular.eval_add (hI : I.Modular) (ha : a.eval I m = ⟨w.ty, x⟩)
    (hb : b.eval I m = ⟨w.ty, y⟩) : (bin (.add w) a b).eval I m = ⟨w.ty, x + y⟩ := by
  simp only [bin, Expr.eval, Expr.evalAll, ha, hb, hI.add]
  rfl

theorem Modular.eval_sub (hI : I.Modular) (ha : a.eval I m = ⟨w.ty, x⟩)
    (hb : b.eval I m = ⟨w.ty, y⟩) : (bin (.sub w) a b).eval I m = ⟨w.ty, x - y⟩ := by
  simp only [bin, Expr.eval, Expr.evalAll, ha, hb, hI.sub]
  rfl

theorem Modular.eval_cmpNE (hI : I.Modular) (ha : a.eval I m = ⟨w.ty, x⟩)
    (hb : b.eval I m = ⟨w.ty, y⟩) :
    (bin (.cmpNE w) a b).eval I m = ⟨.i1, .ofBool (x != y)⟩ := by
  simp only [bin, Expr.eval, Expr.evalAll, ha, hb, hI.cmpNE]
  rfl

theorem Shifts.eval_shrAll (hI : I.Shifts) {x : BitVec 128} {k : BitVec 8}
    (ha : a.eval I m = ⟨.v128, x⟩) (hb : b.eval I m = ⟨.i8, k⟩) (hk : k.toNat < 128) :
    (bin (.vector .shrAll) a b).eval I m = ⟨.v128, x >>> k.toNat⟩ := by
  simp only [bin, Expr.eval, Expr.evalAll, ha, hb]
  exact congrArg (Value.mk .v128) (hI.shrAll x k hk)

theorem Shifts.eval_lowVto32 (hI : I.Shifts) {x : BitVec 128} (ha : a.eval I m = ⟨.v128, x⟩) :
    (un (.cast .lowVto32) a).eval I m = ⟨.i32, x.setWidth 32⟩ := by
  simp only [un, Expr.eval, Expr.evalAll, ha]
  exact congrArg (Value.mk .i32) (hI.lowVto32 x)

end

/-! ## Concrete interpretations -/

/-- The interpretation in which all that is computed, loaded or called gives zero. -/
def zero (order : ByteOrder) : Interp Unit where
  order
  op _ _ := 0
  helper _ _ _ := 0
  load _ _ _ _ := 0
  store _ _ _ _ := ()
  loadLinked _ _ _ _ := (0, ())
  storeConditional _ _ _ _ := (false, ())
  fence _ := ()
  hint _ _ _ _ := ()
  call _ _ _ _ _ := ⟨fun _ => 0, (), []⟩

/-- The code of the order of two numbers. -/
def orderCode {n : Nat} (less greater : Bool) : BitVec n :=
  if less then 8 else if greater then 4 else 2

/-- An operator with one operand. -/
def unary (ty : Ty) {n : Nat} (f : BitVec ty.bits → BitVec n) : List Value → BitVec n
  | [a] => f (a.cut ty)
  | _ => 0

/-- An operator with two operands. -/
def binary (ty ty' : Ty) {n : Nat} (f : BitVec ty.bits → BitVec ty'.bits → BitVec n) :
    List Value → BitVec n
  | [a, b] => f (a.cut ty) (b.cut ty')
  | _ => 0

theorem unary_mk {ty : Ty} {n : Nat} (f : BitVec ty.bits → BitVec n) (x : BitVec ty.bits) :
    unary ty f [⟨ty, x⟩] = f x := by
  rw [unary, Value.cut_mk]

theorem binary_mk {ty ty' : Ty} {n : Nat} (f : BitVec ty.bits → BitVec ty'.bits → BitVec n)
    (x : BitVec ty.bits) (y : BitVec ty'.bits) : binary ty ty' f [⟨ty, x⟩, ⟨ty', y⟩] = f x y := by
  rw [binary, Value.cut_mk, Value.cut_mk]

/-- Operators on bits and the order of integers; the others give zero. -/
def integerOp : (op : Op) → List Value → BitVec op.signature.ret.bits
  | .or w => binary w.ty w.ty (· ||| ·)
  | .and w => binary w.ty w.ty (· &&& ·)
  | .xor w => binary w.ty w.ty (· ^^^ ·)
  | .not w => unary w.ty (~~~·)
  | .shl w => binary w.ty .i8 fun x k => x <<< k.toNat
  | .shr w => binary w.ty .i8 fun x k => x >>> k.toNat
  | .cmpORD w .signed => binary w.ty w.ty fun x y => orderCode (x.slt y) (y.slt x)
  | .cmpORD w .unsigned => binary w.ty w.ty fun x y => orderCode (x.ult y) (y.ult x)
  | .cast c =>
      match c.signature.args with
      | [ty] => unary ty fun x => if c.isPlain then x.setWidth _ else 0
      | _ => fun _ => 0
  | _ => fun _ => 0

/-- Arithmetic modulo the width and shifts of vectors, besides what integers have. -/
def modularOp : (op : Op) → List Value → BitVec op.signature.ret.bits
  | .add w => binary w.ty w.ty (· + ·)
  | .sub w => binary w.ty w.ty (· - ·)
  | .cmpNE w => binary w.ty w.ty fun x y => .ofBool (x != y)
  | .vector .shrAll => binary .v128 .i8 fun x k => x >>> k.toNat
  | .cast .lowVto32 => unary .v128 (·.setWidth _)
  | op => integerOp op

/-- The interpretation that computes with the bits of integers only. -/
def integer (order : ByteOrder) : Interp Unit := { zero order with op := integerOp }

theorem integer_bitwise (order : ByteOrder) : (integer order).Bitwise where
  or w x y := binary_mk (· ||| ·) x y
  and w x y := binary_mk (· &&& ·) x y
  xor w x y := binary_mk (· ^^^ ·) x y
  not w x := unary_mk (~~~·) x
  shl w x k _ := binary_mk (fun x (k : BitVec Ty.i8.bits) => x <<< k.toNat) x k
  shr w x k _ := binary_mk (fun x (k : BitVec Ty.i8.bits) => x >>> k.toNat) x k
  cast c hc ty harg x := by
    change (match c.signature.args with
      | [ty] => unary ty fun x => if c.isPlain then x.setWidth _ else 0
      | _ => fun _ => 0) [⟨ty, x⟩] = _
    rw [harg]
    exact (unary_mk _ x).trans (if_pos hc)

/-- Where operators have the meaning of `modularOp`, arithmetic is as usual. -/
theorem modular_of_op {I : Interp M} (hI : I.op = modularOp) : I.Modular where
  or w x y := by rw [hI]; exact (integer_bitwise .big).or w x y
  and w x y := by rw [hI]; exact (integer_bitwise .big).and w x y
  xor w x y := by rw [hI]; exact (integer_bitwise .big).xor w x y
  not w x := by rw [hI]; exact (integer_bitwise .big).not w x
  shl w x k hk := by rw [hI]; exact (integer_bitwise .big).shl w x k hk
  shr w x k hk := by rw [hI]; exact (integer_bitwise .big).shr w x k hk
  cast c hc ty harg x := by
    rw [hI]
    have hplain := (integer_bitwise .big).cast c hc ty harg x
    cases c <;> first | exact hplain | contradiction
  add w x y := by rw [hI]; exact binary_mk (· + ·) x y
  sub w x y := by rw [hI]; exact binary_mk (· - ·) x y
  cmpNE w x y := by rw [hI]; exact binary_mk (fun x y => .ofBool (x != y)) x y

theorem shifts_of_op {I : Interp M} (hI : I.op = modularOp) : I.Shifts where
  shrAll x k _ := by
    rw [hI]
    exact binary_mk (fun (x : BitVec Ty.v128.bits) (k : BitVec Ty.i8.bits) => x >>> k.toNat) x k
  lowVto32 x := by
    rw [hI]
    exact unary_mk (fun x : BitVec Ty.v128.bits => x.setWidth 32) x

theorem integer_orders (order : ByteOrder) : (integer order).Orders := by
  have hcode : ∀ {ty : Ty} (less greater : BitVec ty.bits → BitVec ty.bits → Bool)
      (x y : BitVec ty.bits), binary ty ty (fun x y => orderCode (less x y) (greater x y))
        [⟨ty, x⟩, ⟨ty, y⟩] ∈ ([8, 4, 2] : List (BitVec ty.bits)) := by
    intro ty less greater x y
    rw [binary_mk, orderCode]
    split
    · simp
    · split <;> simp
  intro w s x y
  cases s with
  | signed => exact hcode (·.slt ·) (fun x y => y.slt x) x y
  | unsigned => exact hcode (·.ult ·) (fun x y => y.ult x) x y

end Interp

end PowerLift
