import PowerLift.Proofs.ByteMemory
import PowerLift.Proofs.IntegerSteps
import PowerLift.Proofs.Operands
import PowerLift.Proofs.ScalarOperators

/-!
# Reference evaluation

The integer part of the intermediate representation is evaluated on plain numbers of 128 bits, each
with the type that it is said to have. An operator knows from its name how wide its operands are,
and an operand of another width is trouble. Expressions that pass the check never get into trouble:
their value has the type that the check gave.
-/

namespace PowerLift

/-- A number with the type that it is said to have. -/
structure TypedNumber where
  ty : Ty
  bits : BitVec 128
  deriving DecidableEq

namespace TypedNumber

/-- The number is one of the type. -/
def Fits (d : TypedNumber) : Prop := d.bits.toNat < 2 ^ d.ty.bits

/-- The number, read as signed or unsigned. -/
def number (d : TypedNumber) : Sign → BitVec 128
  | .unsigned => d.bits
  | .signed => (d.bits <<< (128 - d.ty.bits)).sshiftRight (128 - d.ty.bits)

/-- A truth value as a number. -/
def truth (b : Bool) : BitVec 128 := (BitVec.ofBool b).setWidth 128

end TypedNumber

/-- What an evaluation can stumble over. -/
inductive Trouble where
  /-- The reference evaluation does not know the operator. -/
  | operator (op : Op)
  /-- The reference evaluation does not know the literal. -/
  | literal (c : Const)
  /-- The reference evaluation calls no helpers. -/
  | helper (h : Helper)
  | unbound (t : Nat)
  /-- The operands have other widths than the operator expects. -/
  | operands (op : Op) (got : List Nat)
  | address (got : Ty)
  | condition (got : Ty)
  /-- A difference below zero, a shift beyond the number, or a division by zero. -/
  | arithmetic (op : Op)
  deriving DecidableEq

namespace Trouble

/-- The expression is not one that the reference evaluation knows. -/
def IsGap : Trouble → Prop
  | operator _ | literal _ | helper _ => True
  | unbound _ | operands _ _ | address _ | condition _ | arithmetic _ => False

end Trouble

/-! ## Operators -/

/-- The widths of the operands of a conversion that the reference evaluation knows. -/
def Cast.operandBits? : Cast → Option (List Nat)
  | zext1to8 | zext1to32 | zext1to64 | sext1to32 | sext1to64 => some [1]
  | zext8to16 | zext8to32 | zext8to64 | sext8to32 | sext8to64 => some [8]
  | zext16to32 | zext16to64 | sext16to32 | sext16to64 | low16to8 => some [16]
  | zext32to64 | sext32to64 | low32to1 | low32to8 | low32to16 => some [32]
  | low64to1 | low64to8 | low64to16 | low64to32 | high64to32 => some [64]
  | low128to64 | high128to64 => some [128]
  | cat8to16 => some [8, 8]
  | cat16to32 => some [16, 16]
  | cat32to64 => some [32, 32]
  | cat64to128 => some [64, 64]
  | lowVto64 | highVto64 | lowVto32 | zext32toV | zext64toV | cat64toV => none

/-- The widths of the operands of an operator that the reference evaluation knows. -/
def Op.operandBits? : Op → Option (List Nat)
  | add w | sub w | mul w | or w | and w | xor w | cmpEQ w | cmpNE w => some [w.bits, w.bits]
  | shl w | shr w | sar w => some [w.bits, 8]
  | or1 | and1 => some [1, 1]
  | not1 => some [1]
  | not w => some [w.bits]
  | cmpLT w _ | cmpLE w _ | cmpORD w _ | mull _ w | div _ w | divExt _ w => some [w.bits, w.bits]
  | clz w | ctz w | popCount w | reverse w => some [w.bits]
  | reverse16 => some [16]
  | cast c => c.operandBits?
  | float _ | decimal _ | vector _ | vectorFloat _ | crypto _ => none

namespace TypedNumber

/-- A shift to the left by less than the width of a number. -/
def shiftLeft? (x : BitVec 128) (n : Nat) : Option (BitVec 128) :=
  if n < 128 then some (x <<< n) else none

/-- A difference that is not negative. -/
def sub? (x y : Nat) : Option Nat := if y ≤ x then some (x - y) else none

def less : Sign → BitVec 128 → BitVec 128 → Bool
  | .signed, x, y => x.slt y
  | .unsigned, x, y => x.ult y

def quotient? (s : Sign) (x y : BitVec 128) : Option (BitVec 128) :=
  if y = 0 then none
  else match s with
    | .signed => some (x.sdiv y)
    | .unsigned => some (x / y)

/-- The distance of a shift. -/
def distance (d : TypedNumber) : Nat := d.bits.toNat % 2 ^ 32

end TypedNumber

open TypedNumber in
/-- What a conversion computes, before the result is cut to its type. -/
def Cast.compute? : Cast → List TypedNumber → Option (BitVec 128)
  | zext1to8, [a] | zext1to32, [a] | zext1to64, [a] | zext8to16, [a] | zext8to32, [a]
  | zext8to64, [a] | zext16to32, [a] | zext16to64, [a] | zext32to64, [a] | low64to1, [a]
  | low32to1, [a] | low16to8, [a] | low32to8, [a] | low32to16, [a] | low64to8, [a]
  | low64to16, [a] | low64to32, [a] | low128to64, [a] => some a.bits
  | sext1to32, [a] | sext1to64, [a] | sext8to32, [a] | sext8to64, [a] | sext16to32, [a]
  | sext16to64, [a] | sext32to64, [a] => some (a.number .signed)
  | high64to32, [a] => some (a.bits >>> 32)
  | high128to64, [a] => some (a.bits >>> 64)
  | cat8to16, [a, b] | cat16to32, [a, b] | cat32to64, [a, b] | cat64to128, [a, b] =>
      (shiftLeft? a.bits a.ty.bits).map (· ||| b.bits)
  | _, _ => none

open TypedNumber in
/-- What an operator computes, before the result is cut to its type. -/
def Op.compute? : Op → List TypedNumber → Option (BitVec 128)
  | not _, [a] | not1, [a] => some (~~~a.bits)
  | clz _, [a] => do
      -- The leading zeros beyond the type are not counted.
      return .ofNat 128 (← sub? a.bits.clz.toNat (128 - a.ty.bits))
  | ctz _, [a] => some (if a.bits = 0 then .ofNat 128 a.ty.bits else a.bits.ctz)
  | popCount _, [a] => some a.bits.cpop
  | reverse16, [a] | reverse _, [a] => do
      return (Ty.i64.reversed (a.bits.setWidth 64)).setWidth 128 >>> (← sub? 64 a.ty.bits)
  | cast c, args => c.compute? args
  | add _, [a, b] => some (a.bits + b.bits)
  | sub _, [a, b] => some (a.bits - b.bits)
  | mul _, [a, b] => some (a.bits * b.bits)
  | or _, [a, b] | or1, [a, b] => some (a.bits ||| b.bits)
  | and _, [a, b] | and1, [a, b] => some (a.bits &&& b.bits)
  | xor _, [a, b] => some (a.bits ^^^ b.bits)
  | shl _, [a, b] => some (if a.ty.bits ≤ b.distance then 0 else a.bits <<< b.distance)
  | shr _, [a, b] => some (if a.ty.bits ≤ b.distance then 0 else a.bits >>> b.distance)
  | sar _, [a, b] => some ((a.number .signed).sshiftRight (min b.distance (a.ty.bits - 1)))
  | cmpEQ _, [a, b] => some (truth (a.bits == b.bits))
  | cmpNE _, [a, b] => some (truth (a.bits != b.bits))
  | cmpLT _ s, [a, b] => some (truth (less s (a.number s) (b.number s)))
  | cmpLE _ s, [a, b] => some (truth (!less s (b.number s) (a.number s)))
  | cmpORD _ s, [a, b] =>
      some (if less s (a.number s) (b.number s) then 8
        else if less s (b.number s) (a.number s) then 4 else 2)
  | mull s _, [a, b] => some (a.number s * b.number s)
  | div s _, [a, b] => if b.bits = 0 then some 0 else quotient? s (a.number s) (b.number s)
  | divExt s _, [a, b] =>
      if b.bits = 0 then some 0
      else do quotient? s (← shiftLeft? (a.number s) a.ty.bits) (b.number s)
  | _, _ => none

/-- The bits of a type, all set. -/
def Ty.mask (ty : Ty) : BitVec 128 := BitVec.allOnes 128 >>> (128 - ty.bits)

/-- An operator on operands, which must have the widths that it expects. -/
def Op.operate (op : Op) (args : List TypedNumber) : Except Trouble TypedNumber :=
  match op.operandBits? with
  | none => .error (.operator op)
  | some widths =>
      if args.map (·.ty.bits) ≠ widths then .error (.operands op (args.map (·.ty.bits)))
      else match op.compute? args with
        | none => .error (.arithmetic op)
        | some x => .ok ⟨op.signature.ret, x &&& op.signature.ret.mask⟩

/-! ## Expressions -/

/-- Where expressions are evaluated. -/
structure Bench where
  /-- The numbers of the temporaries that are bound. -/
  temps : Nat → Option (BitVec 128)
  state : GuestState
  memory : ByteMemory

/-- The number of a literal that the reference evaluation knows. -/
def Const.number? : Const → Option (BitVec 128)
  | f32 v => some (v.setWidth 128)
  | f64 v => some (v.setWidth 128)
  | c => c.toNat?.map (.ofNat 128)

mutual

/-- The value of an expression, over temporaries of the types given. Memory wraps around: behind the
last address a load goes on at address zero. -/
def Expr.calculate (types : Nat → Except Fault Ty) (m : Bench) : Expr → Except Trouble TypedNumber
  | .get offset ty => .ok ⟨ty, (m.state.read .little offset ty).setWidth 128⟩
  | .tmp t =>
      match m.temps t, types t with
      | some x, .ok ty => .ok ⟨ty, x⟩
      | _, _ => .error (.unbound t)
  | .const c =>
      match c.number? with
      | some x => .ok ⟨c.ty, x⟩
      | none => .error (.literal c)
  | .apply op args => do op.operate (← Expr.calculateAll types m args)
  | .load order ty addr => do
      let a ← Expr.calculate types m addr
      if a.ty ≠ .i32 ∧ a.ty ≠ .i64 then throw (.address a.ty)
      return ⟨ty, (m.memory.read order (a.bits.setWidth 64) ty).setWidth 128⟩
  | .ite cond yes no => do
      let c ← Expr.calculate types m cond
      if c.ty ≠ .i1 then throw (.condition c.ty)
      if c.bits ≠ 0 then Expr.calculate types m yes else Expr.calculate types m no
  | .call helper _ _ => .error (.helper helper)

/-- The values of several expressions. -/
def Expr.calculateAll (types : Nat → Except Fault Ty) (m : Bench) :
    List Expr → Except Trouble (List TypedNumber)
  | [] => .ok []
  | e :: es => do
      let d ← Expr.calculate types m e
      let ds ← Expr.calculateAll types m es
      return d :: ds

end

/-! ## Numbers and their types -/

theorem Ty.bits_le (ty : Ty) : ty.bits ≤ 128 := by cases ty <;> decide

theorem Ty.toNat_mask_lt (ty : Ty) : ty.mask.toNat < 2 ^ ty.bits := by cases ty <;> decide

namespace TypedNumber

variable {d : TypedNumber}

theorem fits_mask (ty : Ty) (x : BitVec 128) : Fits ⟨ty, x &&& ty.mask⟩ := by
  rw [Fits, BitVec.toNat_and]
  exact Nat.and_le_right.trans_lt ty.toNat_mask_lt

theorem fits_setWidth (ty : Ty) (x : BitVec ty.bits) : Fits ⟨ty, x.setWidth 128⟩ := by
  rw [Fits, BitVec.toNat_setWidth_of_le ty.bits_le]
  exact x.isLt

/-- The bits beyond the type are leading zeros. -/
theorem Fits.le_clz (h : d.Fits) : 128 - d.ty.bits ≤ d.bits.clz.toNat := by
  by_cases hzero : d.bits = 0
  · rw [BitVec.clz_eq_iff_eq_zero.mpr hzero]
    exact Nat.sub_le 128 _
  · have hle := BitVec.two_pow_sub_clz_le_toNat_of_ne_zero (by decide) hzero
    have hlt := (Nat.pow_lt_pow_iff_right (by decide)).mp (hle.trans_lt h)
    omega

/-- The sign of a number does not make it zero. -/
theorem Fits.number_ne_zero (h : d.Fits) (hne : d.bits ≠ 0) (s : Sign) : d.number s ≠ 0 := by
  cases s with
  | unsigned => exact hne
  | signed =>
      intro hzero
      refine hne (BitVec.eq_of_getLsbD_eq fun i hi => ?_)
      refine Eq.trans ?_ BitVec.getLsbD_zero.symm
      have hbits := d.ty.bits_le
      by_cases hinside : i < d.ty.bits
      · have hbit : (d.number .signed).getLsbD i = false := by
          rw [hzero]
          exact BitVec.getLsbD_zero
        rw [number, BitVec.getLsbD_sshiftRight, BitVec.getLsbD_shiftLeft] at hbit
        have hplace : 128 - d.ty.bits + i < 128 := by omega
        simpa [hi, hplace] using hbit
      · have hle : 2 ^ d.ty.bits ≤ 2 ^ i := Nat.pow_le_pow_right (by decide) (by omega)
        exact Nat.testBit_lt_two_pow (h.trans_le hle)

end TypedNumber

/-- The widths that operators expect are those of their signatures. -/
theorem Op.bits_signature {op : Op} {widths : List Nat} (h : op.operandBits? = some widths) :
    op.signature.args.map Ty.bits = widths := by
  cases op with
  | add w | sub w | mul w | or w | and w | xor w | cmpEQ w | cmpNE w | shl w | shr w | sar w
  | not w | cmpLT w | cmpLE w | cmpORD w | mull _ w | div _ w | divExt _ w | clz w | ctz w
  | popCount w | reverse w =>
      obtain rfl := Option.some.inj h
      cases w <;> rfl
  | or1 | and1 | not1 | reverse16 =>
      obtain rfl := Option.some.inj h
      rfl
  | cast c =>
      cases c with
      | lowVto64 | highVto64 | lowVto32 | zext32toV | zext64toV | cat64toV => cases h
      | _ =>
          obtain rfl := Option.some.inj h
          rfl
  | float | decimal | vector | vectorFloat | crypto => cases h

theorem exists_of_map_eq_pair {α β : Type} {f : α → β} {l : List α} {x y : β}
    (h : l.map f = [x, y]) : ∃ a b, l = [a, b] ∧ f a = x ∧ f b = y := by
  obtain ⟨a, rest, rfl, ha, hrest⟩ := List.map_eq_cons_iff.mp h
  obtain ⟨b, rest, rfl, hb, hrest⟩ := List.map_eq_cons_iff.mp hrest
  obtain rfl := List.map_eq_nil_iff.mp hrest
  exact ⟨a, b, rfl, ha, hb⟩

theorem TypedNumber.isSome_quotient? {x y : BitVec 128} (s : Sign) (h : y ≠ 0) :
    (quotient? s x y).isSome := by
  unfold quotient?
  rw [if_neg h]
  cases s <;> rfl

open TypedNumber

/-- A conversion computes a number from operands of its widths. -/
theorem Cast.isSome_compute? {c : Cast} {widths : List Nat} (hc : c.operandBits? = some widths)
    {args : List TypedNumber} (hargs : args.map (·.ty.bits) = widths) :
    (c.compute? args).isSome := by
  cases c with
  | lowVto64 | highVto64 | lowVto32 | zext32toV | zext64toV | cat64toV => cases hc
  | cat8to16 | cat16to32 | cat32to64 | cat64to128 =>
      obtain rfl := Option.some.inj hc
      obtain ⟨a, b, rfl, ha, -⟩ := exists_of_map_eq_pair hargs
      have hlt : a.ty.bits < 128 := by omega
      change ((shiftLeft? a.bits a.ty.bits).map (· ||| b.bits)).isSome
      rw [shiftLeft?, if_pos hlt]
      rfl
  | _ =>
      obtain rfl := Option.some.inj hc
      obtain ⟨a, rfl, -⟩ := List.map_eq_singleton_iff.mp hargs
      rfl

/-- An operator computes a number from operands that fit. -/
theorem Op.isSome_compute? {op : Op} {widths : List Nat} (hop : op.operandBits? = some widths)
    {args : List TypedNumber} (hargs : args.map (·.ty.bits) = widths) (hfits : ∀ d ∈ args, d.Fits) :
    (op.compute? args).isSome := by
  cases op with
  | cast c => exact Cast.isSome_compute? hop hargs
  | float | decimal | vector | vectorFloat | crypto => cases hop
  | not1 | not w | ctz w | popCount w =>
      obtain rfl := Option.some.inj hop
      obtain ⟨a, rfl, -⟩ := List.map_eq_singleton_iff.mp hargs
      rfl
  | clz w =>
      obtain rfl := Option.some.inj hop
      obtain ⟨a, rfl, -⟩ := List.map_eq_singleton_iff.mp hargs
      have hle := (hfits a List.mem_cons_self).le_clz
      change (Option.bind (sub? _ _) _).isSome
      rw [sub?, if_pos hle]
      rfl
  | reverse16 =>
      obtain rfl := Option.some.inj hop
      obtain ⟨a, rfl, ha⟩ := List.map_eq_singleton_iff.mp hargs
      change (Option.bind (sub? _ _) _).isSome
      rw [ha]
      rfl
  | reverse w =>
      obtain rfl := Option.some.inj hop
      obtain ⟨a, rfl, ha⟩ := List.map_eq_singleton_iff.mp hargs
      change (Option.bind (sub? _ _) _).isSome
      rw [ha]
      cases w <;> rfl
  | div s w =>
      obtain rfl := Option.some.inj hop
      obtain ⟨a, b, rfl, -, -⟩ := exists_of_map_eq_pair hargs
      have hb : b.Fits := hfits b (by simp)
      change (if b.bits = 0 then some 0 else quotient? s (a.number s) (b.number s)).isSome
      split
      next => rfl
      next hne => exact isSome_quotient? s (hb.number_ne_zero hne s)
  | divExt s w =>
      obtain rfl := Option.some.inj hop
      obtain ⟨a, b, rfl, ha, -⟩ := exists_of_map_eq_pair hargs
      have hb : b.Fits := hfits b (by simp)
      have hlt : a.ty.bits < 128 := by
        rw [ha]
        cases w <;> decide
      change (if b.bits = 0 then some 0 else (shiftLeft? (a.number s) a.ty.bits).bind fun x =>
        quotient? s x (b.number s)).isSome
      split
      next => rfl
      next hne =>
        rw [shiftLeft?, if_pos hlt]
        exact isSome_quotient? s (hb.number_ne_zero hne s)
  | _ =>
      obtain rfl := Option.some.inj hop
      obtain ⟨a, b, rfl, -, -⟩ := exists_of_map_eq_pair hargs
      rfl

/-! ## Soundness -/

/-- An evaluation ends with a value of a type, unless it is of an expression that is not known. -/
inductive Calculates (ty : Ty) (known : Prop) (r : Except Trouble TypedNumber) : Prop where
  | value (d : TypedNumber) (hr : r = .ok d) (hty : d.ty = ty) (hfits : d.Fits)
  | gap (trouble : Trouble) (hr : r = .error trouble) (hgap : trouble.IsGap) (hknown : ¬ known)

theorem Calculates.imp {ty : Ty} {known known' : Prop} {r : Except Trouble TypedNumber}
    (h : Calculates ty known r) (himp : known' → known) : Calculates ty known' r := by
  cases h with
  | value d hr hty hfits => exact .value d hr hty hfits
  | gap trouble hr hgap hknown => exact .gap trouble hr hgap (mt himp hknown)

/-- An operator gives a value of its type for operands of its signature. -/
theorem Op.operate_sound {op : Op} {args : List TypedNumber}
    (htypes : args.map TypedNumber.ty = op.signature.args) (hfits : ∀ d ∈ args, d.Fits) :
    Calculates op.signature.ret (op.operandBits?.isSome) (op.operate args) := by
  rw [operate]
  cases hop : op.operandBits? with
  | none => exact .gap _ rfl trivial Bool.false_ne_true
  | some widths =>
      have hwidths : args.map (·.ty.bits) = widths := by
        rw [← bits_signature hop, ← htypes, List.map_map]
        rfl
      obtain ⟨x, hx⟩ := Option.isSome_iff_exists.mp (isSome_compute? hop hwidths hfits)
      simp only [hwidths, ne_eq, not_true, if_false, hx]
      exact .value _ rfl rfl (fits_mask _ x)

/-- The number of a literal is its value. -/
theorem Const.number_eq {c : Const} {x : BitVec 128} (h : c.number? = some x) :
    x = c.value.bits.setWidth 128 := by
  cases c with
  | v128 mask => cases h
  | u1 b =>
      obtain rfl := Option.some.inj h
      cases b <;> rfl
  | u8 v | u16 v | u32 v | u64 v =>
      obtain rfl := Option.some.inj h
      exact BitVec.ofNat_toNat 128 v
  | f32 v | f64 v => exact (Option.some.inj h).symm

theorem Const.fits_number {c : Const} {x : BitVec 128} (h : c.number? = some x) :
    TypedNumber.Fits ⟨c.ty, x⟩ := by
  rw [number_eq h, ← c.ty_value]
  exact fits_setWidth c.value.ty c.value.bits

/-- The temporaries hold numbers of their types. -/
def Bench.Binds (m : Bench) (types : Nat → Except Fault Ty) (ts : List Nat) : Prop :=
  ∀ t ∈ ts, ∀ ty, types t = .ok ty → ∃ x, m.temps t = some x ∧ TypedNumber.Fits ⟨ty, x⟩

namespace Expr

/-- The reference evaluation knows what stands at the root of the expression. -/
def IsKnown : Expr → Prop
  | .apply op _ => op.operandBits?.isSome
  | .const c => c.number?.isSome
  | .call _ _ _ => False
  | .get _ _ | .tmp _ | .load _ _ _ | .ite _ _ _ => True

/-- The reference evaluation knows all parts of the expression. -/
def Known (e : Expr) : Prop := ∀ place a, e.at? place = some a → a.IsKnown

theorem known_iff {e : Expr} : e.Known ↔ e.IsKnown ∧ ∀ a ∈ e.operands, a.Known := by
  constructor
  · refine fun h => ⟨h [] e rfl, fun a ha place a' ha' => ?_⟩
    obtain ⟨i, hi, rfl⟩ := List.mem_iff_getElem.mp ha
    exact h (i :: place) a' (at?_cons_eq_some.mpr ⟨_, List.getElem?_eq_getElem hi, ha'⟩)
  · rintro ⟨hroot, hoperands⟩ place a ha
    cases place with
    | nil =>
        obtain rfl := Option.some.inj ha
        exact hroot
    | cons i place =>
        obtain ⟨a', ha', ha⟩ := at?_cons_eq_some.mp ha
        exact hoperands a' (List.mem_of_getElem? ha') place a ha

theorem Known.root {e : Expr} (h : e.Known) : e.IsKnown := (known_iff.mp h).1

theorem Known.operand {a e : Expr} (h : e.Known) (ha : a ∈ e.operands) : a.Known :=
  (known_iff.mp h).2 a ha

variable {types : Nat → Except Fault Ty} {m : Bench} {ty : Ty}

theorem check_apply {op : Op} {args : List Expr} (h : (apply op args).check types = .ok ty) :
    args.length = op.signature.args.length ∧
      checkOperands types op 0 op.signature.args args = .ok () ∧ op.signature.ret = ty := by
  unfold check at h
  split at h
  next => cases h
  next harity =>
    obtain ⟨_, hargs, hret⟩ := bind_eq_ok.mp h
    exact ⟨(not_not.mp harity).symm, hargs, Except.ok.inj hret⟩

theorem check_load {order : ByteOrder} {ret : Ty} {addr : Expr}
    (h : (load order ret addr).check types = .ok ty) :
    ret = ty ∧ ∃ got, addr.check types = .ok got ∧ (got = .i32 ∨ got = .i64) := by
  unfold check at h
  obtain ⟨got, haddr, h⟩ := bind_eq_ok.mp h
  split at h
  next hgot => exact ⟨Except.ok.inj h, got, haddr, hgot⟩
  next => cases h

theorem check_ite {cond yes no : Expr} (h : (ite cond yes no).check types = .ok ty) :
    cond.check types = .ok .i1 ∧ yes.check types = .ok ty ∧ no.check types = .ok ty := by
  unfold check at h
  obtain ⟨c, hcond, h⟩ := bind_eq_ok.mp h
  split at h
  next => cases h
  next hc =>
    obtain ⟨a, hyes, h⟩ := bind_eq_ok.mp h
    obtain ⟨b, hno, h⟩ := bind_eq_ok.mp h
    split at h
    next heq =>
      obtain rfl := Except.ok.inj h
      exact ⟨not_not.mp hc ▸ hcond, hyes, heq ▸ hno⟩
    next => cases h

theorem checkOperands_cons {op : Op} {i : Nat} {want : Ty} {wants : List Ty} {arg : Expr}
    {args : List Expr} (h : checkOperands types op i (want :: wants) (arg :: args) = .ok ()) :
    arg.check types = .ok want ∧ checkOperands types op (i + 1) wants args = .ok () := by
  unfold checkOperands at h
  obtain ⟨got, harg, h⟩ := bind_eq_ok.mp h
  split at h
  next => cases h
  next hgot => exact ⟨not_not.mp hgot ▸ harg, h⟩

/-- Operands that pass the check are evaluated to values of the types that are wanted. -/
theorem calculateAll_sound {op : Op} {i : Nat} {wants : List Ty} {args : List Expr}
    (hargs : ∀ a ∈ args, ∀ ty, a.check types = .ok ty → Calculates ty a.Known (a.calculate types m))
    (hlength : args.length = wants.length)
    (hcheck : checkOperands types op i wants args = .ok ()) :
    (∃ ds, calculateAll types m args = .ok ds ∧ ds.map TypedNumber.ty = wants ∧ ∀ d ∈ ds, d.Fits) ∨
      ∃ trouble, calculateAll types m args = .error trouble ∧ trouble.IsGap ∧
        ∃ a ∈ args, ¬ a.Known := by
  induction args generalizing i wants with
  | nil =>
      obtain rfl := List.length_eq_zero_iff.mp hlength.symm
      exact .inl ⟨[], rfl, rfl, nofun⟩
  | cons a args ih =>
      obtain ⟨want, wants, rfl⟩ := List.exists_cons_of_length_eq_add_one hlength.symm
      obtain ⟨ha, hrest⟩ := checkOperands_cons hcheck
      have htail := ih (fun b hb => hargs b (List.mem_cons_of_mem a hb))
        (Nat.succ.inj hlength) hrest
      rw [calculateAll]
      cases hargs a List.mem_cons_self want ha with
      | gap trouble hr hgap hknown =>
          rw [hr]
          exact .inr ⟨trouble, rfl, hgap, a, List.mem_cons_self, hknown⟩
      | value d hr hty hfits =>
          rw [hr]
          obtain ⟨ds, hds, htypes, hall⟩ | ⟨trouble, htrouble, hgap, b, hb, hknown⟩ := htail
          · refine .inl ⟨d :: ds, by rw [hds]; rfl, ?_, List.forall_mem_cons.mpr ⟨hfits, hall⟩⟩
            rw [List.map_cons, hty, htypes]
          · refine .inr ⟨trouble, by rw [htrouble]; rfl, hgap, b, ?_, hknown⟩
            exact List.mem_cons_of_mem a hb

/-- An expression that passes the check is evaluated to a value of the type that the check gave, if
the reference evaluation knows all its parts. -/
theorem calculate_sound {e : Expr} (hcheck : e.check types = .ok ty)
    (hbinds : m.Binds types e.temps) : Calculates ty e.Known (e.calculate types m) := by
  induction e using operands_induction generalizing ty with
  | h e ih =>
  have hoperand : ∀ a ∈ e.operands, ∀ ty, a.check types = .ok ty →
      Calculates ty a.Known (a.calculate types m) := fun a ha ty hty =>
    ih a ha hty fun t ht => hbinds t (mem_temps_of_mem_operands ha ht)
  cases e with
  | get offset ty' =>
      obtain rfl := Except.ok.inj hcheck
      exact .value _ rfl rfl (fits_setWidth ty' _)
  | tmp t =>
      obtain ⟨x, hx, hfits⟩ := hbinds t List.mem_cons_self ty hcheck
      have htype : types t = .ok ty := hcheck
      refine .value ⟨ty, x⟩ ?_ rfl hfits
      rw [calculate, hx, htype]
  | const c =>
      obtain rfl := Except.ok.inj hcheck
      rw [calculate]
      cases hnumber : c.number? with
      | none => exact .gap _ rfl trivial fun h => by simpa [IsKnown, hnumber] using h.root
      | some x => exact .value _ rfl rfl (Const.fits_number hnumber)
  | call helper ret args => exact .gap _ rfl trivial fun h => h.root
  | apply op args =>
      obtain ⟨hlength, hargs, rfl⟩ := check_apply hcheck
      simp only [operands] at hoperand
      rw [calculate]
      obtain ⟨ds, hds, htypes, hfits⟩ | ⟨trouble, htrouble, hgap, a, ha, hknown⟩ :=
        calculateAll_sound hoperand hlength hargs
      · rw [hds]
        exact (Op.operate_sound htypes hfits).imp Known.root
      · rw [htrouble]
        exact .gap trouble rfl hgap fun h => hknown (h.operand ha)
  | load order ret addr =>
      obtain ⟨rfl, got, haddr, hgot⟩ := check_load hcheck
      rw [calculate]
      cases hoperand addr List.mem_cons_self got haddr with
      | gap trouble hr hgap hknown =>
          rw [hr]
          exact .gap trouble rfl hgap fun h => hknown (h.operand List.mem_cons_self)
      | value d hr hty hfits =>
          have hwide : ¬ (d.ty ≠ .i32 ∧ d.ty ≠ .i64) := by
            rw [hty]
            tauto
          refine .value ⟨ret, (m.memory.read order (d.bits.setWidth 64) ret).setWidth 128⟩ ?_ rfl
            (fits_setWidth ret _)
          rw [hr]
          exact if_neg hwide
  | ite cond yes no =>
      obtain ⟨hcond, hyes, hno⟩ := check_ite hcheck
      simp only [operands, List.forall_mem_cons] at hoperand
      obtain ⟨hcondSound, hyesSound, hnoSound, -⟩ := hoperand
      rw [calculate]
      cases hcondSound .i1 hcond with
      | gap trouble hr hgap hknown =>
          rw [hr]
          exact .gap trouble rfl hgap fun h => hknown (h.operand (by simp [operands]))
      | value d hr hty hfits =>
          have htruth : ¬ d.ty ≠ .i1 := not_not.mpr hty
          simp only [hr, ok_bind, if_neg htruth]
          split
          next => exact (hyesSound ty hyes).imp fun h => h.operand (by simp [operands])
          next => exact (hnoSound ty hno).imp fun h => h.operand (by simp [operands])

/-- What is calculated depends on the temporaries that an expression reads, memory and guest
state. -/
theorem calculate_congr {m' : Bench} (hstate : m'.state = m.state) (hmemory : m'.memory = m.memory)
    (e : Expr) (htemps : ∀ t ∈ e.temps, m'.temps t = m.temps t) :
    e.calculate types m' = e.calculate types m := by
  have hall (es : List Expr) (h : ∀ a ∈ es, a.calculate types m' = a.calculate types m) :
      calculateAll types m' es = calculateAll types m es := by
    induction es with
    | nil => rfl
    | cons a es ih =>
        obtain ⟨ha, hes⟩ := List.forall_mem_cons.mp h
        rw [calculateAll, calculateAll, ha, ih hes]
  induction e using operands_induction with
  | h e ih =>
  have hoperand : ∀ a ∈ e.operands, a.calculate types m' = a.calculate types m :=
    fun a ha => ih a ha fun t ht => htemps t (mem_temps_of_mem_operands ha ht)
  cases e with
  | get offset ty => rw [calculate, calculate, hstate]
  | tmp t => rw [calculate, calculate, htemps t List.mem_cons_self]
  | const c | call helper ret args => rfl
  | apply op args => rw [calculate, calculate, hall args hoperand]
  | load order ty addr => rw [calculate, calculate, hmemory, hoperand addr List.mem_cons_self]
  | ite cond yes no =>
      simp only [operands, List.forall_mem_cons] at hoperand
      obtain ⟨hcond, hyes, hno, -⟩ := hoperand
      rw [calculate, calculate, hcond, hyes, hno]

/-- The check of an expression describes its evaluation. The type that it gives is the type that the
expression is said to have. The temporaries listed are those that stand in the expression, each
place once and from left to right; with memory and guest state they decide the value, whatever the
operators mean. The reference evaluation of an expression that passes the check never meets operands
of other widths than an operator expects, nor any other trouble but a part that it does not know,
and gives a value of the type. -/
theorem check_describes (e : Expr) (types : Nat → Except Fault Ty) :
    (∀ ty, e.check types = .ok ty → e.typeOf types = .ok ty) ∧
      (∃ places : List (List Nat), places.Pairwise (· < ·) ∧
        (∀ place, place ∈ places ↔ ∃ t, e.at? place = some (.tmp t)) ∧
        List.Forall₂ (fun place t => e.at? place = some (.tmp t)) places e.temps) ∧
      (∀ {M : Type} (I : Interp M) (m m' : Machine M), m'.memory = m.memory →
        m'.state = m.state → (∀ t ∈ e.temps, m'.temps t = m.temps t) →
          e.eval I m' = e.eval I m) ∧
      (∀ m m' : Bench, m'.state = m.state → m'.memory = m.memory →
        (∀ t ∈ e.temps, m'.temps t = m.temps t) → e.calculate types m' = e.calculate types m) ∧
      ∀ (m : Bench) (ty : Ty), e.check types = .ok ty → m.Binds types e.temps →
        (∀ trouble, e.calculate types m = .error trouble → trouble.IsGap) ∧
          (e.Known → ∃ d, e.calculate types m = .ok d) ∧
          ∀ d, e.calculate types m = .ok d → d.ty = ty ∧ d.bits.toNat < 2 ^ ty.bits := by
  obtain ⟨places, hplaces⟩ := exists_lists e
  refine ⟨fun ty => typeOf_of_check, ⟨places, hplaces.sorted, hplaces.mem_iff, hplaces.each⟩,
    fun I m m' hmemory hstate => eval_congr I hmemory hstate e,
    fun m m' hstate hmemory => calculate_congr hstate hmemory e, fun m ty hcheck hbinds => ?_⟩
  cases calculate_sound hcheck hbinds with
  | value d hr hty hfits =>
      refine ⟨fun trouble h => ?_, fun _ => ⟨d, hr⟩, fun d' h => ?_⟩
      · rw [hr] at h
        cases h
      · rw [hr] at h
        obtain rfl := Except.ok.inj h
        exact ⟨hty, hty ▸ hfits⟩
  | gap trouble hr hgap hknown =>
      refine ⟨fun trouble' h => ?_, fun h => absurd h hknown, fun d h => ?_⟩
      · rw [hr] at h
        obtain rfl := Except.error.inj h
        exact hgap
      · rw [hr] at h
        cases h

/-- The sum of a temporary and a byte of the guest state. -/
theorem check_describes_sum :
    let e : Expr := bin (.add .w64) (.tmp 0) (un (.cast .zext8to64) (.get 3 .i8))
    let types : Nat → Except Fault Ty := fun _ => .ok .i64
    let m : Bench := ⟨fun _ => some 5, fun _ => 0x80, fun _ => 0⟩
    e.check types = .ok .i64 ∧ e.Known ∧ m.Binds types e.temps ∧
      ∃ d, e.calculate types m = .ok d ∧ d.ty = .i64 ∧ d.bits.toNat < 2 ^ 64 := by
  intro e types m
  have hcheck : e.check types = .ok .i64 := rfl
  have htmp : (tmp 0).Known := known_iff.mpr ⟨trivial, nofun⟩
  have hbyte : (get 3 .i8).Known := known_iff.mpr ⟨trivial, nofun⟩
  have hwide : (un (.cast .zext8to64) (get 3 .i8)).Known :=
    known_iff.mpr ⟨rfl, by simpa [un, operands] using hbyte⟩
  have hknown : e.Known := known_iff.mpr ⟨rfl, by simpa [e, bin, operands] using ⟨htmp, hwide⟩⟩
  have hbinds : m.Binds types e.temps := by
    intro t _ ty hty
    obtain rfl := Except.ok.inj hty
    exact ⟨5, rfl, by rw [TypedNumber.Fits]; decide⟩
  obtain ⟨-, -, -, -, hsound⟩ := check_describes e types
  obtain ⟨-, hvalue, htyped⟩ := hsound m .i64 hcheck hbinds
  obtain ⟨d, hd⟩ := hvalue hknown
  exact ⟨hcheck, hknown, hbinds, d, hd, htyped d hd⟩

end Expr

end PowerLift
