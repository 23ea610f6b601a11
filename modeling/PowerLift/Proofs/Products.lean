import PowerLift.Proofs.NumberParts
import PowerLift.Proofs.Quotients

/-!
# Products, quotients and remainders

Multiplications and divisions are exact: what they leave are parts of the number that integers give.
-/

namespace PowerLift

open Point (Knows Next Before Quiet)
open PowerLift.Expr (un bin)

variable {M : Type} {I : Interp M} {env : Env} {c : Point M} {w : Insn} {S : GuestState → Prop}

/-! ## Parts of products -/

/-- The type of products of two words. -/
def Word.double : Word → Ty
  | w32 => .i64
  | w64 => .i128

/-- The conversion that takes the high half of a product. -/
def Word.highCast : Word → Cast
  | w32 => .high64to32
  | w64 => .high128to64

/-- The conversion that takes the low half of a product. -/
def Word.lowCast : Word → Cast
  | w32 => .low64to32
  | w64 => .low128to64

namespace Point.Knows

variable {a b e : Expr} {v : Word} {x y : BitVec v.ty.bits} {k : Int}

theorem product (hI : I.Integral) (s : Sign) (ha : Knows I c S a ⟨v.ty, x⟩)
    (hb : Knows I c S b ⟨v.ty, y⟩) :
    Knows I c S (.bin (.mull s v) a b) ⟨v.double, .ofInt _ (s.int x * s.int y)⟩ := by
  cases v <;> exact ha.bin hb rfl (hI.mull s _ x y)

theorem high (hI : I.Integral) (he : Knows I c S e ⟨v.double, .ofInt _ k⟩) :
    Knows I c S (.un (.cast v.highCast) e) ⟨v.ty, .ofInt _ (k / 2 ^ v.ty.bits)⟩ := by
  cases v with
  | w32 => exact (he.un rfl (hI.high64to32 _)).congr (congrArg (Value.mk .i32) (high_ofInt k))
  | w64 => exact (he.un rfl (hI.high128to64 _)).congr (congrArg (Value.mk .i64) (high_ofInt k))

theorem low (hI : I.Integral) (he : Knows I c S e ⟨v.double, .ofInt _ k⟩) :
    Knows I c S (.un (.cast v.lowCast) e) ⟨v.ty, .ofInt _ k⟩ := by
  cases v with
  | w32 =>
      exact (he.un rfl (hI.cast .low64to32 rfl .i64 rfl _)).congr
        (congrArg (Value.mk .i32) (low_ofInt (by decide) k))
  | w64 =>
      exact (he.un rfl (hI.low128to64 _)).congr
        (congrArg (Value.mk .i64) (low_ofInt (by decide) k))

/-- A word that is widened as its sign asks. -/
theorem extend (hI : I.Integral) {x : BitVec 32} (he : Knows I c S e ⟨.i32, x⟩) (arch : Arch)
    (s : Sign) :
    Knows I c S (PowerLift.widened arch (s = .signed) e) ⟨arch.word.ty, s.extend _ x⟩ := by
  cases s with
  | signed => exact he.widened hI arch true
  | unsigned => exact he.widened hI arch false

end Point.Knows

/-- The overflow rule of products at a width. -/
def FlagRule.mulL : Word → FlagRule
  | .w32 => mulLw
  | .w64 => mulLd

/-- A product that does not fit is told by its high half. -/
theorem FlagRule.mulL_overflow (hI : I.Integral) {v : Word} (res : Expr) {a b : Expr}
    {x y : BitVec v.ty.bits} (ha : c.Knows I S a ⟨v.ty, x⟩) (hb : c.Knows I S b ⟨v.ty, y⟩) :
    Holds I c S ((mulL v).overflow v.ty res a b)
      (¬Sign.signed.Fits v.ty.bits (x.toInt * y.toInt)) := by
  have hpos : 0 < v.ty.bits := Nat.lt_trans Nat.zero_lt_one v.one_lt_bits
  have hproduct := ha.product hI .signed hb
  have hbit : (signBit v).toNat = v.ty.bits - 1 := by cases v <;> rfl
  have hsign := (hproduct.low hI).sar hI (.const (.u8 (signBit v))) (by cases v <;> decide)
  refine ⟨_, ?_, ((hproduct.high hI).unequal hsign hI.toModular).congr ?_⟩
  · cases v <;> rfl
  · have hfits := high_eq_sign_iff hpos (fits_high hpos x y)
    rw [hbit]
    refine congrArg (fun p => Value.mk .i1 (.ofBool p)) ?_
    rw [Bool.eq_iff_iff, bne_iff_ne, decide_eq_true_eq]
    exact not_congr hfits

/-! ## Products -/

section

variable {arch : Arch} (harch : arch = .ppc64)

include harch

theorem Value.double_ofInt (k : Int) :
    (⟨.i64, .ofInt 64 k⟩ : Value) = ⟨arch.word.ty, .ofInt _ k⟩ := by
  subst harch
  rfl

theorem Value.double_extend (s : Sign) (x : BitVec 64) :
    (⟨.i64, x⟩ : Value) = ⟨arch.word.ty, s.extend _ x⟩ := by
  subst harch
  cases s with
  | signed => exact congrArg (Value.mk .i64) (BitVec.signExtend_eq x).symm
  | unsigned => exact congrArg (Value.mk .i64) (BitVec.setWidth_eq x).symm

end

namespace Arithmetic

variable {a b : Expr} {t : Nat} {x y : BitVec env.arch.word.ty.bits}

/-- A product with an immediate. -/
theorem lift_immediate (hI : I.Integral) (hlayout : env.layout = env.arch)
    (hopcode : w.opcode = 7) :
    Reaches env I c (lift w) fun _ c' =>
      c'.state = c.state.after env.arch I.order w.rd
        { result := .ofInt _ ((c.state.operand env.arch I.order w.ra).toInt * w.simm16) } := by
  have hwidth : env.arch.word.ty.bits ≤ 64 := by cases env.arch <;> decide
  have hlift : lift w = immediate w := by simp only [lift, hopcode]
  rw [hlift, BitVec.ofInt_mul, BitVec.ofInt_toInt, ← low_ofInt hwidth, GuestState.after_plain]
  unfold immediate
  simp only [hopcode]
  refine .hold hlayout w.ra_lt ?_
  intro a c₁ _ hquiet ha
  refine .give rfl (.listed ?_)
  intro c₂ _ hquiet'
  refine .give rfl (.bind (S := fun _ => True) (ha.up.mul (Point.knows_imm w.simm64) hI) trivial ?_)
  intro res c₃ _ hquiet'' hres
  refine .last (.putGpr (S := fun _ => True) hlayout w.rd_lt hres trivial ?_)
  intro c₄ _ hstate
  rw [hquiet''.state_eq, hquiet'.state_eq, hquiet.state_eq] at hstate
  exact .pure hstate

theorem knows_lowWord (hI : I.Integral) (arch : Arch) {x y : BitVec 32}
    (ha : c.Knows I S a ⟨.i32, x⟩) (hb : c.Knows I S b ⟨.i32, y⟩) :
    c.Knows I S (bin (if arch.is64 then .mull .signed .w32 else .mul .w32) a b)
      ⟨arch.word.ty, .ofInt _ (x.toInt * y.toInt)⟩ := by
  cases arch with
  | ppc32 =>
      exact (ha.bin hb rfl (hI.mul .w32 x y)).congr
        (congrArg (Value.mk .i32) (Sign.signed.mul_eq x y))
  | ppc64 => exact ha.bin hb rfl (hI.mull .signed .w32 x y)

theorem multiplyLowWord_binds (hI : I.Integral) (hlayout : env.layout = env.arch)
    (ht : c.stage.Open t env.arch.word.ty) (hheld : Held env I c a b x y) (record : Bool) :
    BindsResult env I c (multiplyLowWord w a b t) t
      { result := .ofInt _ ((x.setWidth 32).toInt * (y.setWidth 32).toInt)
        overflow :=
          if w.oe then
            some (¬Sign.signed.Fits 32 ((x.setWidth 32).toInt * (y.setWidth 32).toInt))
          else none
        record } := by
  have hwidth : 32 ≤ env.arch.word.ty.bits := by cases env.arch <;> decide
  unfold multiplyLowWord
  refine .listed ht ?_
  intro c₁ _ _ ht
  have hl : ∀ {S}, c₁.Knows I S (env.low32 a) _ := hheld.left.up.low32 hI.toBitwise
  have hr : ∀ {S}, c₁.Knows I S (env.low32 b) _ := hheld.right.up.low32 hI.toBitwise
  refine .give rfl (.give rfl (.give rfl (.assign ht (knows_lowWord hI env.arch hl hr) ?_)))
  intro c₂ _ hres
  split
  · refine .give rfl (.bind (S := fun _ => True) (hres.low32 hI.toBitwise) trivial ?_)
    intro lo c₃ _ hquiet hlo
    refine .last (.setOverflow (S := fun _ => True) hI.toBitwise hlayout hlo
      (FlagRule.mulL_overflow (v := .w32) hI lo hl.up hr.up) trivial ?_)
    intro c₄ _ hstate
    rw [hquiet.state_eq] at hstate
    exact .pure hstate
  · exact .pure rfl

theorem multiplyLowDoubleword_binds (hI : I.Integral) (hlayout : env.layout = env.arch)
    (harch : env.arch = .ppc64) (hxo : w.xo9 = 233) (ht : c.stage.Open t env.arch.word.ty)
    (hheld : Held env I c a b x y) (record : Bool) :
    BindsResult env I c (registerResult w a b t) t
      { result := .ofInt _ ((x.setWidth 64).toInt * (y.setWidth 64).toInt)
        overflow :=
          if w.oe then
            some (¬Sign.signed.Fits 64 ((x.setWidth 64).toInt * (y.setWidth 64).toInt))
          else none
        record } := by
  obtain ⟨hl, hr⟩ := hheld.doubles harch
  have hproduct : ∀ {S}, c.Knows I S (bin (.mul .w64) a b)
      ⟨.i64, .ofInt 64 ((x.setWidth 64).toInt * (y.setWidth 64).toInt)⟩ :=
    (hl.bin hr rfl (hI.mul .w64 _ _)).congr (congrArg (Value.mk .i64) (Sign.signed.mul_eq _ _))
  unfold registerResult
  simp only [hxo]
  refine .give (exec_needMode64 harch) (.listed ht ?_)
  intro c₁ _ _ ht
  refine .assign ht (hproduct.up.congr (Value.double_ofInt harch _)) ?_
  intro c₂ _ hres
  have hres : ∀ {S}, c₂.Knows I S (.tmp t) ⟨.i64, .ofInt 64 _⟩ :=
    hres.congr (Value.double_ofInt harch _).symm
  exact .overflowIf hI hlayout hres (FlagRule.mulL_overflow (v := .w64) hI _ hl.up hr.up)

theorem exec_to64 {p : Progress} {s : Sign} {e : Expr} :
    Lift.exec env p (multiplyHighWord.to64 e s) =
      (.ok (widened env.arch (s = .signed) e), p) := by
  have hmode : Lift.exec env p Lift.mode64 = (.ok env.arch.is64, p) := rfl
  rw [multiplyHighWord.to64, Lift.exec_bind, hmode]
  cases env.arch <;> cases s <;> rfl

theorem multiplyHighWord_binds (hI : I.Integral) (hoe : w.oe = false)
    (ht : c.stage.Open t env.arch.word.ty) (hheld : Held env I c a b x y) (s : Sign)
    (record : Bool) :
    BindsResult env I c (multiplyHighWord w s a b t) t
      { result := s.extend _
          (BitVec.ofInt 32 (s.int (x.setWidth 32) * s.int (y.setWidth 32) / 2 ^ 32))
        record } := by
  unfold multiplyHighWord
  refine .give (invalidIf_still (I := I) c.level _ hoe).exec_eq (.listed ht ?_)
  intro c₁ _ _ ht
  have hl : ∀ {S}, c₁.Knows I S (env.low32 a) _ := hheld.left.up.low32 hI.toBitwise
  have hr : ∀ {S}, c₁.Knows I S (env.low32 b) _ := hheld.right.up.low32 hI.toBitwise
  have hhigh : ∀ {S}, c₁.Knows I S _ ⟨.i32, .ofInt 32 _⟩ :=
    (Point.Knows.product (v := .w32) hI s hl hr).high hI
  exact .give rfl (.give rfl (.give exec_to64 (.only ht (hhigh.extend hI env.arch s) record)))

theorem multiplyHighDoubleword_binds (hI : I.Integral) (harch : env.arch = .ppc64)
    (hoe : w.oe = false) (ht : c.stage.Open t env.arch.word.ty) (hheld : Held env I c a b x y)
    (s : Sign) (record : Bool) :
    BindsResult env I c (multiplyHighDoubleword w s a b t) t
      { result := s.extend _
          (BitVec.ofInt 64 (s.int (x.setWidth 64) * s.int (y.setWidth 64) / 2 ^ 64))
        record } := by
  unfold multiplyHighDoubleword
  refine .give (exec_needMode64 harch)
    (.give (invalidIf_still (I := I) c.level _ hoe).exec_eq (.listed ht ?_))
  intro c₁ _ _ ht
  obtain ⟨hl, hr⟩ := hheld.doubles harch
  have hhigh : ∀ {S}, c₁.Knows I S _ ⟨.i64, .ofInt 64 _⟩ :=
    (Point.Knows.product (v := .w64) hI s hl.up hr.up).high hI
  exact .only ht (hhigh.congr (Value.double_extend harch s _)) record

/-! ## Quotients and remainders -/

/-- The extended opcode of a remainder. -/
def remainderXo : Sign → Word → Nat
  | .signed, .w32 => 779
  | .unsigned, .w32 => 267
  | .signed, .w64 => 777
  | .unsigned, .w64 => 265

theorem Quotient.eq_of_divides {s : Sign} {n : Nat} {x y z : BitVec n}
    (hz : Quotient.Defines ⟨s, false⟩ x y z) (hdivides : s.indivisible x y = false) :
    z = .ofInt n ((s.int x).tdiv (s.int y)) := by
  refine hz ?_ fun _ => Sign.fits_tdiv hdivides
  rintro rfl
  simp [Sign.indivisible] at hdivides

/-- A division overflows where there is no quotient. -/
theorem Quotient.overflow_plain {s : Sign} {n : Nat} {x y z : BitVec n} :
    Quotient.overflow ⟨s, false⟩ x y z = s.indivisible x y := by
  rw [Bool.eq_iff_iff]
  cases s <;> simp [Quotient.overflow, Sign.indivisible]

theorem exists_remainder (hI : I.Integral) (s : Sign) (v : Word) (x y : BitVec v.ty.bits) :
    ∃ z, (s.indivisible x y = false → z = .ofInt _ ((s.int x).tmod (s.int y))) ∧
      ∀ {c : Point M} {S a b}, c.Knows I S a ⟨v.ty, x⟩ → c.Knows I S b ⟨v.ty, y⟩ →
        c.Knows I S (bin (.sub v.width) a (bin (.mul v.width) (bin (.div s v) a b) b))
          ⟨v.ty, z⟩ := by
  obtain ⟨q, hq, hgives⟩ := Quotient.exists_gives hI ⟨s, false⟩ v x y
  refine ⟨x - q * y, fun hdivides => ?_, fun ha hb => ?_⟩
  · rw [Quotient.eq_of_divides hq hdivides]
    exact s.remainder_eq x y
  · exact ha.sub ((hgives ha hb).mul hb hI) hI.toModular

theorem modulo_reaches (hI : I.Integral) (hlayout : env.layout = env.arch) {s : Sign} {v : Word}
    (hxo : w.xo10 = remainderXo s v) (hrecord : w.record = false)
    (hmode : v = .w64 → env.arch = .ppc64) :
    let l := (c.state.operand env.arch I.order w.ra).setWidth v.ty.bits
    let r := (c.state.operand env.arch I.order w.rb).setWidth v.ty.bits
    ∃ z : BitVec v.ty.bits, (s.indivisible l r = false → z = .ofInt _ ((s.int l).tmod (s.int r))) ∧
      Reaches env I c (modulo w) fun _ c' =>
        c'.state = c.state.after env.arch I.order w.rd { result := s.extend _ z } := by
  intro l r
  obtain ⟨z, hz, hgives⟩ := exists_remainder hI s v l r
  refine ⟨z, hz, ?_⟩
  have hword : (w.xo10 == 779 || w.xo10 == 267) = (v == .w32) := by
    rw [hxo]
    cases s <;> cases v <;> rfl
  have hsigned : (w.xo10 == 779 || w.xo10 == 777) = decide (s = .signed) := by
    rw [hxo]
    cases s <;> cases v <;> rfl
  have hsign : Sign.ofSigned (decide (s = .signed)) = s := by cases s <;> rfl
  unfold modulo
  simp only [hword, hsigned, hsign]
  refine .give (reservedClear_still (I := I) c.level _ hrecord).exec_eq
    (.give (exec_getGpr hlayout w.ra_lt) (.give (exec_getGpr hlayout w.rb_lt) ?_))
  cases v with
  | w32 =>
      refine .listed ?_
      intro c₁ _ hquiet
      refine .give rfl (.bind (Point.knows_word hI.toBitwise env w.ra) hquiet.state_eq ?_)
      intro a c₂ _ hquiet' ha
      have hstate := hquiet'.state_eq.trans hquiet.state_eq
      refine .give rfl (.bind (Point.knows_word hI.toBitwise env w.rb) hstate ?_)
      intro b c₃ _ hquiet'' hb
      have hremainder : ∀ {S}, c₃.Knows I S _ ⟨.i32, z⟩ := hgives ha.up hb
      exact .give (exec_widened (hremainder (S := fun _ => True)) _)
        (.putResult hlayout w.rd_lt (hremainder.extend hI env.arch s)
          (hquiet''.state_eq.trans hstate))
  | w64 =>
      have harch := hmode rfl
      refine .give (exec_needMode64 harch) (.listed ?_)
      intro c₁ _ hquiet
      have hl : c₁.Knows I (· = c.state) _ ⟨.i64, _⟩ :=
        (Point.knows_gpr env.arch w.ra).congr (Value.double_eq harch _)
      refine .bind hl hquiet.state_eq ?_
      intro a c₂ _ hquiet' ha
      have hstate := hquiet'.state_eq.trans hquiet.state_eq
      have hr : c₂.Knows I (· = c.state) _ ⟨.i64, _⟩ :=
        (Point.knows_gpr env.arch w.rb).congr (Value.double_eq harch _)
      refine .bind hr hstate ?_
      intro b c₃ _ hquiet'' hb
      have hremainder : ∀ {S}, c₃.Knows I S _ ⟨.i64, z⟩ := hgives ha.up hb
      exact .putResult hlayout w.rd_lt (hremainder.congr (Value.double_extend harch s z))
        (hquiet''.state_eq.trans hstate)

/-! ## Products with a sum -/

section

variable {a b d : Expr} {x y z : BitVec 64}

theorem zeroExtend_eq (p : Bool) : (BitVec.ofBool p).setWidth 64 = .ofInt 64 p.toInt := by
  cases p <;> rfl

/-- The high half of a product, and the carry that a sum makes in its low half. -/
theorem highAndCarry_reaches (hI : I.Integral) (s : Sign)
    (ha : ∀ {S}, c.Knows I S a ⟨.i64, x⟩) (hb : ∀ {S}, c.Knows I S b ⟨.i64, y⟩)
    (hd : ∀ {S}, c.Knows I S d ⟨.i64, z⟩) :
    Reaches env I c (do
      let product ← Lift.bind (bin (.mull s .w64) a b)
      let lo ← Lift.bind (un (.cast .low128to64) product)
      let sum ← Lift.bind (bin .add64 lo d)
      return (un (.cast .high128to64) product,
        un (.cast .zext1to64) (bin (.cmpLT .w64 .unsigned) sum lo))) fun r c' =>
      c'.state = c.state ∧
        (∀ {S}, c'.Knows I S r.1 ⟨.i64, .ofInt 64 (s.int x * s.int y / 2 ^ 64)⟩) ∧
        ∀ {S}, c'.Knows I S r.2 ⟨.i64, .ofInt 64
          (Addends.carries ⟨z, .ofInt 64 (s.int x * s.int y), false⟩).toInt⟩ := by
  refine .bind (S := fun _ => True) (Point.Knows.product (v := .w64) hI s ha hb) trivial ?_
  intro product c₁ _ hquiet hproduct
  refine .bind (S := fun _ => True) (Point.Knows.low (v := .w64) hI hproduct) trivial ?_
  intro lo c₂ _ hquiet' hlo
  refine .bind (S := fun _ => True) (Point.Knows.add (w := .w64) hlo hd.up hI.toModular) trivial ?_
  intro sum c₃ _ hquiet'' hsum
  have hcarry : ∀ {S}, c₃.Knows I S _ _ := Point.Knows.below (w := .w64) hsum hlo.up hI
  have hcarries := Addends.carries_of_not (s := ⟨z, .ofInt 64 (s.int x * s.int y), false⟩)
    (by decide) rfl
  rw [Addends.sum_plain, BitVec.add_comm] at hcarries
  refine .pure ⟨?_, Point.Knows.high (v := .w64) hI hproduct.up, ?_⟩
  · rw [hquiet''.state_eq, hquiet'.state_eq, hquiet.state_eq]
  · intro S
    refine (hcarry.un rfl (hI.cast .zext1to64 rfl .i1 rfl _)).congr (congrArg (Value.mk .i64) ?_)
    rw [hcarries]
    exact zeroExtend_eq _

end

/-- The extended opcode of a product and a sum, of which the high part is asked for or the low. -/
def sumXo : Option Sign → Nat
  | some .signed => 48
  | some .unsigned => 49
  | none => 51

/-- The number that a product and a sum leave. -/
def sumPart (part : Option Sign) (x y z : BitVec 64) : Int :=
  match part with
  | some s => (s.int x * s.int y + s.int z) / 2 ^ 64
  | none => x.toInt * y.toInt + z.toInt

section

variable {a b d hi carry : Expr} {x y z : BitVec 64}

theorem knows_lowSum (hI : I.Integral) (ha : c.Knows I S a ⟨.i64, x⟩) (hb : c.Knows I S b ⟨.i64, y⟩)
    (hd : c.Knows I S d ⟨.i64, z⟩) :
    c.Knows I S (bin .add64 (bin (.mul .w64) a b) d) ⟨.i64, .ofInt 64 (sumPart none x y z)⟩ := by
  refine (Point.Knows.add (w := .w64) (.mul (w := .w64) ha hb hI) hd hI.toModular).congr
    (congrArg (Value.mk .i64) ?_)
  simp only [sumPart]
  rw [BitVec.ofInt_add, BitVec.ofInt_toInt]
  exact congrArg (· + z) (Sign.signed.mul_eq x y)

theorem knows_unsignedSum (hI : I.Integral)
    (hhi : c.Knows I S hi ⟨.i64, .ofInt 64 (Sign.unsigned.int x * Sign.unsigned.int y / 2 ^ 64)⟩)
    (hcarry : c.Knows I S carry ⟨.i64, .ofInt 64 (Addends.carries
      ⟨z, .ofInt 64 (Sign.unsigned.int x * Sign.unsigned.int y), false⟩).toInt⟩) :
    c.Knows I S (bin .add64 hi carry) ⟨.i64, .ofInt 64 (sumPart (some .unsigned) x y z)⟩ := by
  refine (Point.Knows.add (w := .w64) hhi hcarry hI.toModular).congr (congrArg (Value.mk .i64) ?_)
  simp only [sumPart, Sign.int]
  rw [high_add, BitVec.ofInt_add]
  rfl

theorem knows_signedSum (hI : I.Integral) (hd : c.Knows I S d ⟨.i64, z⟩)
    (hhi : c.Knows I S hi ⟨.i64, .ofInt 64 (Sign.signed.int x * Sign.signed.int y / 2 ^ 64)⟩)
    (hcarry : c.Knows I S carry ⟨.i64, .ofInt 64 (Addends.carries
      ⟨z, .ofInt 64 (Sign.signed.int x * Sign.signed.int y), false⟩).toInt⟩) :
    c.Knows I S (bin .add64 (bin .add64 hi (bin .sar64 d (.u8 63))) carry)
      ⟨.i64, .ofInt 64 (sumPart (some .signed) x y z)⟩ := by
  have hsign : c.Knows I S (bin .sar64 d (.u8 63)) ⟨.i64, z.sshiftRight 63⟩ :=
    Point.Knows.sar (w := .w64) hd hI (.const (.u8 63)) (by decide)
  refine (Point.Knows.add (w := .w64) (.add (w := .w64) hhi hsign hI.toModular) hcarry
    hI.toModular).congr (congrArg (Value.mk .i64) ?_)
  simp only [sumPart, Sign.int]
  rw [high_add_toInt (by decide), BitVec.ofInt_add, BitVec.ofInt_add, BitVec.ofInt_toInt]
  rfl

end

theorem multiplyAdd_reaches (hI : I.Integral) (hlayout : env.layout = env.arch)
    (harch : env.arch = .ppc64) {part : Option Sign} (hxo : w.vaXo = sumXo part) :
    Reaches env I c (multiplyAdd w) fun _ c' =>
      c'.state = c.state.after env.arch I.order w.rd
        { result := .ofInt _ (sumPart part
            ((c.state.operand env.arch I.order w.ra).setWidth 64)
            ((c.state.operand env.arch I.order w.rb).setWidth 64)
            ((c.state.operand env.arch I.order w.rcField).setWidth 64)) } := by
  generalize hx : (c.state.operand env.arch I.order w.ra).setWidth 64 = x
  generalize hy : (c.state.operand env.arch I.order w.rb).setWidth 64 = y
  generalize hz : (c.state.operand env.arch I.order w.rcField).setWidth 64 = z
  unfold multiplyAdd
  refine .give (exec_needMode64 harch) (.hold hlayout w.ra_lt ?_)
  intro a c₁ _ hquiet ha
  refine .hold hlayout w.rb_lt ?_
  intro b c₂ _ hquiet' hb
  refine .hold hlayout w.rcField_lt ?_
  intro d c₃ _ hquiet'' hd
  rw [hquiet.state_eq] at hb
  rw [hquiet'.state_eq, hquiet.state_eq] at hd
  extract_lets operands wide
  have ha : ∀ {S}, c₃.Knows I S a ⟨.i64, x⟩ := hx ▸ ha.up.congr (Value.double_eq harch _)
  have hb : ∀ {S}, c₃.Knows I S b ⟨.i64, y⟩ := hy ▸ hb.up.congr (Value.double_eq harch _)
  have hd : ∀ {S}, c₃.Knows I S d ⟨.i64, z⟩ := hz ▸ hd.congr (Value.double_eq harch _)
  have hstate : c₃.state = c.state := by
    rw [hquiet''.state_eq, hquiet'.state_eq, hquiet.state_eq]
  rw [hxo]
  match part with
  | some .signed =>
      refine .listed ?_
      intro c₄ _ hquiet
      refine .seq (highAndCarry_reaches hI .signed ha.up hb.up hd.up) ?_
      rintro ⟨hi, carry⟩ c₅ _ ⟨hstate', hhi, hcarry⟩
      have hsum : ∀ {S}, c₅.Knows I S _ ⟨.i64, _⟩ := knows_signedSum hI hd.up hhi hcarry
      exact .ret (.putResult hlayout w.rd_lt (hsum.congr (Value.double_ofInt harch _))
        ((hstate'.trans hquiet.state_eq).trans hstate))
  | some .unsigned =>
      refine .listed ?_
      intro c₄ _ hquiet
      refine .seq (highAndCarry_reaches hI .unsigned ha.up hb.up hd.up) ?_
      rintro ⟨hi, carry⟩ c₅ _ ⟨hstate', hhi, hcarry⟩
      have hsum : ∀ {S}, c₅.Knows I S _ ⟨.i64, _⟩ := knows_unsignedSum hI hhi hcarry
      exact .ret (.putResult hlayout w.rd_lt (hsum.congr (Value.double_ofInt harch _))
        ((hstate'.trans hquiet.state_eq).trans hstate))
  | none =>
      refine .listed ?_
      intro c₄ _ hquiet
      have hsum : ∀ {S}, c₄.Knows I S _ ⟨.i64, _⟩ := knows_lowSum hI ha.up hb.up hd.up
      exact .ret (.putResult hlayout w.rd_lt (hsum.congr (Value.double_ofInt harch _))
        (hquiet.state_eq.trans hstate))

end Arithmetic

/-! ## The instructions -/

/-- What is promised of an instruction that leaves the carry: its result, unless it has none, its
overflow, where it writes that, and whether it compares its result. -/
structure Promise (n : Nat) where
  result : Option (BitVec n)
  overflow : Option Bool := none
  record : Bool := false

structure Promise.Kept {n : Nat} (p : Promise n) (out : Computed n) : Prop where
  result : ∀ x, p.result = some x → out.result = x
  carry : out.carry = none
  overflow : out.overflow = p.overflow
  record : out.record = p.record

namespace Promise.Kept

variable {n : Nat} {x y : BitVec n} {overflow : Option Bool} {record : Bool}

theorem of_result : Kept ⟨some x, overflow, record⟩ { result := x, overflow, record } :=
  ⟨fun _ h => Option.some.inj h, rfl, rfl, rfl⟩

/-- A result that is promised under a condition. -/
theorem of_not {p : Bool} (h : p = false → y = x) :
    Kept ⟨if p then none else some x, overflow, record⟩ { result := y, overflow, record } := by
  cases p with
  | true => exact ⟨nofun, rfl, rfl, rfl⟩
  | false => exact ⟨fun _ h' => (h rfl).trans (Option.some.inj h'), rfl, rfl, rfl⟩

end Promise.Kept

/-- The instructions whose results are parts of exact numbers. -/
inductive Exact where
  /-- A product with an immediate. -/
  | immediate
  | low (v : Word)
  | high (s : Sign) (v : Word)
  | quotient (s : Sign) (v : Word)
  | remainder (s : Sign) (v : Word)
  /-- A product and a sum, of which the high part is asked for or the low. -/
  | sum (part : Option Sign)
  deriving DecidableEq

namespace Exact

/-- The extended opcode. -/
def xo : Exact → Nat
  | immediate => 0
  | low .w32 => 235
  | low .w64 => 233
  | high .signed .w32 => 75
  | high .unsigned .w32 => 11
  | high .signed .w64 => 73
  | high .unsigned .w64 => 9
  | quotient .signed .w32 => 491
  | quotient .unsigned .w32 => 459
  | quotient .signed .w64 => 489
  | quotient .unsigned .w64 => 457
  | remainder s v => Arithmetic.remainderXo s v
  | sum part => Arithmetic.sumXo part

/-- The words of an instruction. Some have no overflow to write, some compare no result. -/
def Encoded (e : Exact) (w : Insn) : Prop :=
  match e with
  | immediate => w.opcode = 7
  | low _ | quotient _ _ => w.opcode = 31 ∧ w.xo9 = e.xo
  | high _ _ => w.opcode = 31 ∧ w.xo9 = e.xo ∧ w.oe = false
  | remainder _ _ => w.opcode = 31 ∧ w.xo10 = e.xo ∧ w.record = false
  | sum _ => w.opcode = 4 ∧ w.vaXo = e.xo

instance (e : Exact) (w : Insn) : Decidable (e.Encoded w) := by
  cases e <;> unfold Encoded <;> infer_instance

/-- The guests that have an instruction. -/
def Available (e : Exact) (g : Guest) : Prop :=
  let recent := (Features.resolve g.arch g.info.caps).isa30 = true
  match e with
  | immediate => True
  | low v | high _ v | quotient _ v => v = .w64 → g.arch = .ppc64
  | remainder _ v => (v = .w64 → g.arch = .ppc64) ∧ recent
  | sum _ => g.arch = .ppc64 ∧ recent

/-- What an instruction computes of its registers. Products of words fill a register, if they find
the space. Other words are extended: high parts and remainders as their sign asks, quotients with
zeros. -/
def promise (e : Exact) (w : Insn) {n : Nat} (x y z : BitVec n) : Promise n :=
  match e with
  | immediate => { result := some (.ofInt n (x.toInt * w.simm16)) }
  | low v =>
      let product := (x.setWidth v.ty.bits).toInt * (y.setWidth v.ty.bits).toInt
      { result := some (.ofInt n product)
        overflow := if w.oe then some (¬Sign.signed.Fits v.ty.bits product) else none
        record := w.record }
  | high s v =>
      let product := s.int (x.setWidth v.ty.bits) * s.int (y.setWidth v.ty.bits)
      { result := some (s.extend n (BitVec.ofInt v.ty.bits (product / 2 ^ v.ty.bits)))
        record := w.record }
  | quotient s v =>
      let l := x.setWidth v.ty.bits
      let r := y.setWidth v.ty.bits
      { result :=
          if s.indivisible l r then none
          else some ((BitVec.ofInt v.ty.bits ((s.int l).tdiv (s.int r))).setWidth n)
        overflow := if w.oe then some (s.indivisible l r) else none
        record := w.record }
  | remainder s v =>
      let l := x.setWidth v.ty.bits
      let r := y.setWidth v.ty.bits
      { result :=
          if s.indivisible l r then none
          else some (s.extend n (BitVec.ofInt v.ty.bits ((s.int l).tmod (s.int r)))) }
  | sum part =>
      { result := some (.ofInt n
          (Arithmetic.sumPart part (x.setWidth 64) (y.setWidth 64) (z.setWidth 64))) }

variable {e : Exact}

theorem route {g : Guest} (he : e.Encoded w) (hg : e.Available g) :
    ∃ route, Route.find? w = some route ∧ route.family = .arithmetic ∧
      route.closedGate? g.arch (.resolve g.arch g.info.caps) = none := by
  cases e with
  | immediate =>
      have hopcode : w.opcode = 7 := he
      exact ⟨_, Route.find?_only (by rw [hopcode]; rfl), rfl, rfl⟩
  | low v =>
      obtain ⟨hopcode, hxo⟩ := he
      exact ⟨_, Route.find?_arithmetic hopcode (hxo ▸ by cases v <;> decide), rfl, rfl⟩
  | high s v =>
      obtain ⟨hopcode, hxo, -⟩ := he
      exact ⟨_, Route.find?_arithmetic hopcode (hxo ▸ by cases s <;> cases v <;> decide), rfl, rfl⟩
  | quotient s v =>
      obtain ⟨hopcode, hxo⟩ := he
      exact ⟨_, Route.find?_arithmetic hopcode (hxo ▸ by cases s <;> cases v <;> decide), rfl, rfl⟩
  | remainder s v =>
      obtain ⟨hopcode, hxo, -⟩ := he
      obtain ⟨-, hrecent⟩ := hg
      have hroute : Route.ofXo10 (xo (remainder s v)) =
          some ⟨.xo10 [265, 267, 777, 779], [.isa30], .arithmetic⟩ := by
        cases s <;> cases v <;> decide
      refine ⟨_, (Route.find?_register hopcode).trans (hxo ▸ hroute), rfl, ?_⟩
      simp [Route.closedGate?, Gate.isOpen, hrecent]
  | sum part =>
      obtain ⟨hopcode, hxo⟩ := he
      obtain ⟨harch, hrecent⟩ := hg
      have hroute : Route.find? w = some ⟨.va [48, 49, 51], [.isa30, .mode64], .arithmetic⟩ := by
        simp only [Route.find?, Route.ofOpcode, hopcode, Route.vectors, List.find?_cons,
          Pattern.accepts, hxo]
        rcases part with _ | _ | _ <;> rfl
      refine ⟨_, hroute, rfl, ?_⟩
      simp [Route.closedGate?, Gate.isOpen, hrecent, show g.arch.is64 = true from harch ▸ rfl]

theorem lift_reaches {g : Guest} (he : e.Encoded w) (hg : e.Available g) (hI : I.Integral)
    (hlayout : env.layout = env.arch) (harch : env.arch = g.arch) :
    ∃ out, (e.promise w (c.state.operand env.arch I.order w.ra)
        (c.state.operand env.arch I.order w.rb)
        (c.state.operand env.arch I.order w.rcField)).Kept out ∧
      Reaches env I c (Arithmetic.lift w) fun _ c' =>
        c'.state = c.state.after env.arch I.order w.rd out := by
  cases e with
  | immediate => exact ⟨_, .of_result, Arithmetic.lift_immediate hI hlayout he⟩
  | low v =>
      obtain ⟨hopcode, hxo⟩ := he
      refine ⟨_, .of_result, ?_⟩
      rw [Arithmetic.lift_registers hopcode (hxo ▸ by cases v <;> decide)]
      refine Arithmetic.registers_reaches hI hlayout rfl ?_
      intro a b t c' _ ht hheld
      cases v with
      | w32 =>
          have hform : Arithmetic.registerResult w a b t = Arithmetic.multiplyLowWord w a b t := by
            simp only [Arithmetic.registerResult, hxo, xo]
          rw [hform]
          exact Arithmetic.multiplyLowWord_binds hI hlayout ht hheld _
      | w64 =>
          exact Arithmetic.multiplyLowDoubleword_binds hI hlayout (harch.trans (hg rfl)) hxo ht
            hheld _
  | high s v =>
      obtain ⟨hopcode, hxo, hoe⟩ := he
      refine ⟨_, .of_result, ?_⟩
      rw [Arithmetic.lift_registers hopcode (hxo ▸ by cases s <;> cases v <;> decide)]
      refine Arithmetic.registers_reaches hI hlayout rfl ?_
      intro a b t c' _ ht hheld
      cases v with
      | w32 =>
          have hform : Arithmetic.registerResult w a b t =
              Arithmetic.multiplyHighWord w s a b t := by
            cases s <;> simp only [Arithmetic.registerResult, hxo, xo]
          rw [hform]
          exact Arithmetic.multiplyHighWord_binds hI hoe ht hheld s _
      | w64 =>
          have hform : Arithmetic.registerResult w a b t =
              Arithmetic.multiplyHighDoubleword w s a b t := by
            cases s <;> simp only [Arithmetic.registerResult, hxo, xo]
          rw [hform]
          exact Arithmetic.multiplyHighDoubleword_binds hI (harch.trans (hg rfl)) hoe ht hheld s _
  | quotient s v =>
      obtain ⟨hopcode, hxo⟩ := he
      have hdivision : w.division? = some (⟨s, false⟩, v) := by
        cases s <;> cases v <;> simp only [Insn.division?, hxo, xo]
      obtain ⟨z, hz, hreaches⟩ := Arithmetic.lift_division (c := c) hI hlayout hopcode hdivision
        fun hv => harch.trans (hg hv)
      rw [Arithmetic.Quotient.overflow_plain] at hreaches
      refine ⟨_, .of_not fun hdivides => ?_, hreaches⟩
      rw [Arithmetic.Quotient.eq_of_divides hz hdivides]
  | remainder s v =>
      obtain ⟨hopcode, hxo, hrecord⟩ := he
      have hlift : Arithmetic.lift w = Arithmetic.modulo w := by
        cases s <;> cases v <;> simp [Arithmetic.lift, hopcode, hxo, xo, Arithmetic.remainderXo]
      obtain ⟨z, hz, hreaches⟩ := Arithmetic.modulo_reaches (c := c) hI hlayout hxo hrecord
        fun hv => harch.trans (hg.1 hv)
      rw [hlift]
      refine ⟨_, .of_not fun hdivides => ?_, hreaches⟩
      rw [hz hdivides]
  | sum part =>
      obtain ⟨hopcode, hxo⟩ := he
      have hlift : Arithmetic.lift w = Arithmetic.multiplyAdd w := by
        simp only [Arithmetic.lift, hopcode]
      rw [hlift]
      exact ⟨_, .of_result, Arithmetic.multiplyAdd_reaches hI hlayout (harch.trans hg.1) hxo⟩

end Exact

/-- Multiplications, divisions, remainders and products with a sum leave what integers give: the low
or the high part of a product or a sum, the truncated quotient and its remainder where they exist. A
product overflows where it does not fit, a quotient where there is none. -/
theorem Guest.exact_parts (g : Guest) {e : Exact} (he : e.Encoded w) (hg : e.Available g)
    (hI : I.Integral) :
    g.ComputesInto w w.rd I fun arch σ out =>
      (e.promise w (σ.operand arch I.order w.ra) (σ.operand arch I.order w.rb)
        (σ.operand arch I.order w.rcField)).Kept out := by
  obtain ⟨route, hroute, hfamily, hgates⟩ := Exact.route he hg
  refine Guest.computesInto hroute hgates w.rd_lt
    (fun order arch σ out => (e.promise w (σ.operand arch order w.ra) (σ.operand arch order w.rb)
      (σ.operand arch order w.rcField)).Kept out) ?_ hI
  intro N J env c hJ hlayout harch
  rw [hfamily]
  exact Exact.lift_reaches he hg hJ hlayout harch

/-- A machine of which general registers 4, 5 and 6 are minus one. -/
def ones : Machine Unit := .start () fun o => if 32 ≤ o ∧ o < 56 then 0xFF else 0

/-- The code of `maddhd r3,r4,r5,r6` finds the high part of one less one: the carry of the low parts
cancels the sign. -/
theorem Guest.exact_parts_cancel :
    ∃ ss m', Guest.Codes { arch := .ppc64, info := { caps := .own .ppc64 } } ⟨0x106429B0⟩
        ⟨4, .continue, none⟩ ss ∧
      runAll (.integral .big) #[] ss ones = .behind m' ∧
      m'.state.operand .ppc64 .big 3 = 0 := by
  let g : Guest := { arch := .ppc64, info := { caps := .own .ppc64 } }
  let code : ByteArray := ⟨#[0x10, 0x64, 0x29, 0xB0]⟩
  have hcomputes := Guest.exact_parts g (w := ⟨0x106429B0⟩) (e := .sum (some .signed))
    (by decide) ⟨rfl, by decide +kernel⟩ (Interp.integral_integral .big)
  obtain ⟨ss, out, m', hcodes, hout, hm', hshows⟩ :=
    hcomputes.exists_run (by decide) code (by decide) (by decide) ones
  refine ⟨ss, m', hcodes, hm', ?_⟩
  rw [show m'.state.operand .ppc64 .big 3 = _ from hshows.result, hout.result _ rfl]
  decide +kernel

end PowerLift
