import PowerLift.Proofs.IntegerForms

/-!
# Quotients

Divisions truncate. What they give has a meaning where the divisor is not zero and the quotient
fits; extended divisions give the low part of any quotient. The overflow of an extended signed
division is guessed from its result and misses quotients.
-/

namespace PowerLift

open Point (Knows Next Before Quiet)
open PowerLift.Expr (un bin)

variable {M : Type} {I : Interp M} {env : Env} {c : Point M} {w : Insn}

/-- The quotient and the width of a division. -/
def Insn.division? (w : Insn) : Option (Arithmetic.Quotient × Word) :=
  match w.xo9 with
  | 491 => some (⟨.signed, false⟩, .w32)
  | 459 => some (⟨.unsigned, false⟩, .w32)
  | 427 => some (⟨.signed, true⟩, .w32)
  | 395 => some (⟨.unsigned, true⟩, .w32)
  | 489 => some (⟨.signed, false⟩, .w64)
  | 457 => some (⟨.unsigned, false⟩, .w64)
  | 425 => some (⟨.signed, true⟩, .w64)
  | 393 => some (⟨.unsigned, true⟩, .w64)
  | _ => none

namespace Arithmetic

namespace Quotient

variable {q : Quotient} {n : Nat} {x y z : BitVec n}

/-- The exact quotient, truncated. Extended divisions append zeros to the dividend. -/
def exact (q : Quotient) (x y : BitVec n) : Int :=
  (if q.extended then q.sign.int x * 2 ^ n else q.sign.int x).tdiv (q.sign.int y)

/-- What the operator says of its result. -/
def Defines (q : Quotient) (x y z : BitVec n) : Prop :=
  y ≠ 0 → (q.extended = false → q.sign.Fits n (q.exact x y)) → z = .ofInt n (q.exact x y)

/-- When the overflow is set, by operands and result. -/
def overflow (q : Quotient) (x y z : BitVec n) : Bool :=
  match q.extended, q.sign with
  | false, .signed => y == 0 || (x == .intMin n && y == .allOnes n)
  | false, .unsigned => y == 0
  | true, .signed => (z == 0 && (x != 0 && y != 0)) || y == 0
  | true, .unsigned => y == 0 || decide (y.toNat ≤ x.toNat)

/-- The operator gives `z` for the quotient of `x` and `y`. -/
def Gives (I : Interp M) (q : Quotient) (v : Word) (x y z : BitVec v.ty.bits) : Prop :=
  ∀ {c : Point M} {S a b}, c.Knows I S a ⟨v.ty, x⟩ → c.Knows I S b ⟨v.ty, y⟩ →
    c.Knows I S (bin (q.op v) a b) ⟨v.ty, z⟩

theorem exists_gives (hI : I.Integral) (q : Quotient) (v : Word) (x y : BitVec v.ty.bits) :
    ∃ z, q.Defines x y z ∧ q.Gives I v x y z := by
  obtain ⟨sign, extended⟩ := q
  cases extended with
  | false =>
      refine ⟨I.op (.div sign v) [⟨v.ty, x⟩, ⟨v.ty, y⟩], ?_, fun ha hb => ha.bin hb ?_ rfl⟩
      · intro hy hfits
        refine hI.div sign v x y hy ?_
        cases v <;> exact hfits rfl
      · rfl
  | true =>
      refine ⟨I.op (.divExt sign v) [⟨v.ty, x⟩, ⟨v.ty, y⟩], ?_, fun ha hb => ha.bin hb ?_ rfl⟩
      · intro hy _
        rw [hI.divExt sign v x y hy, ← v.ty_bits]
        rfl
      · rfl

theorem rule_overflow (hI : I.Integral) (q : Quotient) (v : Word) {x y z : BitVec v.ty.bits}
    {S : GuestState → Prop} {res a b : Expr} (hres : c.Knows I S res ⟨v.ty, z⟩)
    (ha : c.Knows I S a ⟨v.ty, x⟩) (hb : c.Knows I S b ⟨v.ty, y⟩) :
    FlagRule.Holds I c S ((q.rule v).overflow v.ty res a b) (q.overflow x y z) := by
  have hzero := hb.equal (Point.knows_zero v) hI
  obtain ⟨sign, extended⟩ := q
  cases extended <;> cases sign
  case false.signed =>
    have hleast := (ha.equal (Point.knows_least v) hI).both hI
      (hb.equal (Point.knows_minusOne v) hI)
    refine ⟨_, ?_, hzero.either hI hleast⟩
    cases v <;> rfl
  case false.unsigned =>
    refine ⟨_, ?_, hzero⟩
    cases v <;> rfl
  case true.signed =>
    have hoperands := (ha.unequal (Point.knows_zero v) hI.toModular).both hI
      (hb.unequal (Point.knows_zero v) hI.toModular)
    refine ⟨_, ?_, ((hres.equal (Point.knows_zero v) hI).both hI hoperands).either hI hzero⟩
    cases v <;> rfl
  case true.unsigned =>
    refine ⟨_, ?_, hzero.either hI (hb.notAbove ha hI)⟩
    cases v <;> rfl

end Quotient

/-! ## The forms -/

variable {q : Quotient} {a b : Expr} {t : Nat} {x y : BitVec env.arch.word.ty.bits}

theorem exec_to64IfWide {p : Progress} {e : Expr} :
    Lift.exec env p (divideWord.to64IfWide e) = (.ok (widened env.arch false e), p) := by
  have hmode : Lift.exec env p Lift.mode64 = (.ok env.arch.is64, p) := rfl
  rw [divideWord.to64IfWide, Lift.exec_bind, hmode]
  cases env.arch <;> rfl

theorem divideWord_binds (hI : I.Integral) (hlayout : env.layout = env.arch)
    (ht : c.stage.Open t env.arch.word.ty) (hheld : Held env I c a b x y) (record : Bool)
    {z : BitVec 32} (hz : q.Gives I .w32 (x.setWidth 32) (y.setWidth 32) z) :
    BindsResult env I c (divideWord w q a b t) t
      { result := z.setWidth _
        overflow := if w.oe then some (q.overflow (x.setWidth 32) (y.setWidth 32) z) else none
        record } := by
  unfold divideWord
  refine .listed ht ?_
  intro c₁ _ _ ht
  refine .give rfl (.bind ht (hheld.left.up.low32 hI.toBitwise) ?_)
  intro l c₂ _ _ ht hl
  refine .give rfl (.bind ht (hheld.right.up.low32 hI.toBitwise) ?_)
  intro r c₃ _ _ ht hr
  refine .bind ht (hz hl.up hr) ?_
  intro res c₄ _ _ ht hres
  refine .give exec_to64IfWide (.assign ht (hres.widened hI env.arch false) ?_)
  intro c₅ _ _
  exact .overflowIf hI hlayout hres.up (q.rule_overflow hI .w32 hres.up hl.up hr.up)

theorem divideDoubleword_binds (hI : I.Integral) (hlayout : env.layout = env.arch)
    (harch : env.arch = .ppc64) (ht : c.stage.Open t env.arch.word.ty)
    (hheld : Held env I c a b x y) (record : Bool) {z : BitVec 64}
    (hz : q.Gives I .w64 (x.setWidth 64) (y.setWidth 64) z) :
    BindsResult env I c (divideDoubleword w q a b t) t
      { result := z.setWidth _
        overflow := if w.oe then some (q.overflow (x.setWidth 64) (y.setWidth 64) z) else none
        record } := by
  obtain ⟨hl, hr⟩ := hheld.doubles harch
  unfold divideDoubleword
  refine .give (exec_needMode64 harch) (.listed ht ?_)
  intro c₁ _ _ ht
  have hquotient : ∀ {S}, c₁.Knows I S (bin (q.op .w64) a b) ⟨env.arch.word.ty, z.setWidth _⟩ :=
    (hz hl.up hr.up).congr (Value.of_double harch z)
  refine .assign ht hquotient ?_
  intro c₂ _ hres
  have hres : ∀ {S}, c₂.Knows I S (.tmp t) ⟨.i64, z⟩ :=
    hres.congr (Value.of_double harch z).symm
  exact .overflowIf hI hlayout hres (q.rule_overflow hI .w64 hres hl.up hr.up)

theorem registerResult_division {v : Word} (hdivision : w.division? = some (q, v)) :
    w.xo9 ∈ Route.arithmeticForms ∧ ∀ a b t, registerResult w a b t = match v with
      | .w32 => divideWord w q a b t
      | .w64 => divideDoubleword w q a b t := by
  unfold Insn.division? at hdivision
  split at hdivision
  case h_9 => cases hdivision
  all_goals
    next hxo =>
      cases hdivision
      refine ⟨by rw [hxo]; decide, fun a b t => ?_⟩
      unfold registerResult
      simp only [hxo]

theorem lift_division (hI : I.Integral) (hlayout : env.layout = env.arch)
    (hopcode : w.opcode = 31) {v : Word} (hdivision : w.division? = some (q, v))
    (hmode : v = .w64 → env.arch = .ppc64) :
    let l := (c.state.operand env.arch I.order w.ra).setWidth v.ty.bits
    let r := (c.state.operand env.arch I.order w.rb).setWidth v.ty.bits
    ∃ z, q.Defines l r z ∧ Reaches env I c (lift w) fun _ c' =>
      c'.state = c.state.after env.arch I.order w.rd
        { result := z.setWidth _
          overflow := if w.oe then some (q.overflow l r z) else none
          record := w.record } := by
  intro l r
  obtain ⟨hxo, hform⟩ := registerResult_division hdivision
  obtain ⟨z, hz, hgives⟩ := Quotient.exists_gives hI q v l r
  refine ⟨z, hz, ?_⟩
  rw [lift_registers hopcode hxo]
  refine registers_reaches hI hlayout rfl ?_
  intro a b t c' _ ht hheld
  rw [hform]
  cases v with
  | w32 => exact divideWord_binds hI hlayout ht hheld _ hgives
  | w64 => exact divideDoubleword_binds hI hlayout (hmode rfl) ht hheld _ hgives

end Arithmetic

/-! ## Extended divisions -/

namespace Sign

variable {n : Nat}

/-- The exact quotient of an extended division. -/
def extendedQuotient (s : Sign) (x y : BitVec n) : Int := (s.int x * 2 ^ n).tdiv (s.int y)

/-- The overflow of an extended division as it is found. Where numbers have signs, it is told by a
quotient whose low part is zero. -/
def overflowFound (s : Sign) (x y : BitVec n) : Bool :=
  match s with
  | unsigned => y = 0 ∨ ¬unsigned.Fits n (unsigned.extendedQuotient x y)
  | signed => y = 0 ∨ x ≠ 0 ∧ BitVec.ofInt n (signed.extendedQuotient x y) = 0

theorem fits_extendedQuotient {x y : BitVec n} (hy : y ≠ 0) :
    unsigned.Fits n (unsigned.extendedQuotient x y) ↔ x.toNat < y.toNat := by
  have hpos : 0 < y.toNat := by
    rw [Nat.pos_iff_ne_zero]
    exact fun h => hy (BitVec.eq_of_toNat_eq h)
  have hquotient : unsigned.extendedQuotient x y = ((x.toNat * 2 ^ n / y.toNat : Nat) : Int) := by
    simp only [extendedQuotient, int]
    rw [Int.tdiv_eq_ediv_of_nonneg (by positivity)]
    norm_cast
  simp only [hquotient, Fits, Int.natCast_nonneg, true_and]
  norm_cast
  rw [Nat.div_lt_iff_lt_mul hpos, Nat.mul_comm, Nat.mul_lt_mul_left (Nat.two_pow_pos n)]

/-- An overflow that is found is one. -/
theorem overflow_of_found {s : Sign} {x y : BitVec n} (hn : 0 < n)
    (hfound : s.overflowFound x y = true) : y = 0 ∨ ¬s.Fits n (s.extendedQuotient x y) := by
  cases s with
  | unsigned => simpa [overflowFound] using hfound
  | signed =>
      simp only [overflowFound, decide_eq_true_eq] at hfound
      by_cases hy : y = 0
      · exact .inl hy
      · obtain ⟨hx, hlow⟩ := hfound.resolve_left hy
        refine .inr fun hfits => ?_
        -- A quotient that fits and has no low part is zero, but the dividend exceeds the divisor.
        have hzero : signed.extendedQuotient x y = 0 := by
          rw [← int_ofInt hn hfits, hlow]
          exact BitVec.toInt_zero
        have hdivisor : y.toInt.natAbs ≠ 0 := by
          rw [Int.natAbs_ne_zero]
          exact fun h => hy (BitVec.eq_of_toInt_eq (h.trans BitVec.toInt_zero.symm))
        have hdividend : 0 < x.toInt.natAbs := by
          rw [Int.natAbs_pos]
          exact fun h => hx (BitVec.eq_of_toInt_eq (h.trans BitVec.toInt_zero.symm))
        have hbelow : x.toInt.natAbs * 2 ^ n < y.toInt.natAbs := by
          have hquotient := congrArg Int.natAbs hzero
          rw [extendedQuotient, Int.natAbs_tdiv, Int.natAbs_mul, Int.natAbs_pow] at hquotient
          exact (Nat.div_eq_zero_iff.mp hquotient).resolve_left hdivisor
        have habove : 2 ^ n ≤ x.toInt.natAbs * 2 ^ n := Nat.le_mul_of_pos_left _ hdividend
        have hsmall : y.toInt.natAbs ≤ 2 ^ (n - 1) := by
          have hlow := BitVec.le_toInt y
          have hhigh := BitVec.toInt_lt (x := y)
          have hcast : ((2 ^ (n - 1) : Nat) : Int) = 2 ^ (n - 1) := Nat.cast_pow 2 (n - 1)
          omega
        have hpow : 2 ^ (n - 1) < 2 ^ n := Nat.pow_lt_pow_right (by decide) (by omega)
        omega

end Sign

theorem Arithmetic.Quotient.overflow_extended {s : Sign} {n : Nat} {x y z : BitVec n}
    (hz : Quotient.Defines ⟨s, true⟩ x y z) :
    Quotient.overflow ⟨s, true⟩ x y z = s.overflowFound x y := by
  by_cases hy : y = 0
  · cases s <;> simp [Quotient.overflow, Sign.overflowFound, hy]
  · cases s with
    | unsigned =>
        rw [Bool.eq_iff_iff]
        simp [Quotient.overflow, Sign.overflowFound, Sign.fits_extendedQuotient hy]
    | signed =>
        obtain rfl : z = .ofInt n (Sign.signed.extendedQuotient x y) := hz hy nofun
        rw [Bool.eq_iff_iff]
        simp only [Quotient.overflow, Sign.overflowFound, Bool.or_eq_true, Bool.and_eq_true,
          beq_iff_eq, bne_iff_ne, decide_eq_true_eq]
        tauto

/-- What an extended division of `x` by `y` leaves: the low part of the quotient, and an overflow as
it is found. -/
structure Insn.LeavesExtendedQuotient (w : Insn) (s : Sign) {n k : Nat} (x y : BitVec n)
    (out : Computed k) : Prop where
  result : y ≠ 0 → out.result = (BitVec.ofInt n (s.extendedQuotient x y)).setWidth k
  carry : out.carry = none
  overflow : out.overflow = if w.oe then some (s.overflowFound x y) else none
  record : out.record = w.record

theorem Guest.computes_extended (g : Guest) (hopcode : w.opcode = 31) {s : Sign} {v : Word}
    (hdivision : w.division? = some (⟨s, true⟩, v)) (hmode : v = .w64 → g.arch = .ppc64)
    (hI : I.Integral) :
    g.ComputesInto w w.rd I fun arch σ out =>
      w.LeavesExtendedQuotient s ((σ.operand arch I.order w.ra).setWidth v.ty.bits)
        ((σ.operand arch I.order w.rb).setWidth v.ty.bits) out := by
  obtain ⟨hxo, -⟩ := Arithmetic.registerResult_division hdivision
  refine Guest.computesInto (Route.find?_arithmetic hopcode hxo) rfl w.rd_lt
    (fun order arch σ out => w.LeavesExtendedQuotient s
      ((σ.operand arch order w.ra).setWidth v.ty.bits)
      ((σ.operand arch order w.rb).setWidth v.ty.bits) out) ?_ hI
  intro N J env c hJ hlayout harch
  obtain ⟨z, hz, hreaches⟩ := Arithmetic.lift_division (c := c) hJ hlayout hopcode hdivision
    fun hv => harch.trans (hmode hv)
  refine ⟨_, ⟨fun hy => ?_, rfl, ?_, rfl⟩, hreaches⟩
  · rw [hz hy nofun]
    rfl
  · rw [Arithmetic.Quotient.overflow_extended hz]

/-- The code of an extended division leaves the low part of the quotient, and an overflow that is
exact for unsigned numbers. For signed ones it misses the quotients whose low part is not zero;
where it is found, the divisor is zero or the quotient does not fit. -/
theorem Guest.extended_quotients (g : Guest) (hopcode : w.opcode = 31) {s : Sign} {v : Word}
    (hdivision : w.division? = some (⟨s, true⟩, v)) (hmode : v = .w64 → g.arch = .ppc64)
    (hI : I.Integral) :
    (g.ComputesInto w w.rd I fun arch σ out =>
      w.LeavesExtendedQuotient s ((σ.operand arch I.order w.ra).setWidth v.ty.bits)
        ((σ.operand arch I.order w.rb).setWidth v.ty.bits) out) ∧
    ∀ x y : BitVec v.ty.bits,
      (s = .unsigned → (s.overflowFound x y = true ↔
        y = 0 ∨ ¬s.Fits v.ty.bits (s.extendedQuotient x y))) ∧
      (s.overflowFound x y = true → y = 0 ∨ ¬s.Fits v.ty.bits (s.extendedQuotient x y)) := by
  refine ⟨g.computes_extended hopcode hdivision hmode hI, fun x y => ⟨?_, ?_⟩⟩
  · rintro rfl
    simp [Sign.overflowFound]
  · exact Sign.overflow_of_found (Nat.lt_trans Nat.zero_lt_one v.one_lt_bits)

/-- A machine of which general registers 4 and 5 are one and two. -/
def halving (arch : Arch) : Machine Unit :=
  .start () fun o =>
    if o = 5 * arch.wordBytes - 1 then 1 else if o = 6 * arch.wordBytes - 1 then 2 else 0

/-- The code of `divdeuo r3,r4,r5`: half of the least number that has no doubleword has one. -/
theorem Guest.extended_quotients_half :
    ∃ ss m', Guest.Codes { arch := .ppc64 } ⟨0x7C642F12⟩ ⟨4, .continue, none⟩ ss ∧
      runAll (.integral .big) #[] ss (halving .ppc64) = .behind m' ∧
      m'.state.operand .ppc64 .big 3 = 0x8000000000000000 ∧
      m'.state (Layout.specialOffset .ppc64 .xerOv) = flagByte false := by
  let g : Guest := { arch := .ppc64 }
  let code : ByteArray := ⟨#[0x7C, 0x64, 0x2F, 0x12]⟩
  obtain ⟨hcomputes, -⟩ := Guest.extended_quotients g (w := ⟨0x7C642F12⟩) (s := .unsigned)
    (v := .w64) (by decide) rfl (fun _ => rfl) (Interp.integral_integral .big)
  obtain ⟨ss, out, m', hcodes, hout, hm', hshows⟩ :=
    hcomputes.exists_run (by decide) code (by decide) (by decide) (halving .ppc64)
  refine ⟨ss, m', hcodes, hm', ?_, hshows.overflow _ ?_⟩
  · rw [show m'.state.operand .ppc64 .big 3 = _ from hshows.result, hout.result (by decide +kernel)]
    decide +kernel
  · rw [hout.overflow]
    decide +kernel

/-- The code of `divweo r3,r4,r5` finds no overflow where half of `2 ^ 32` does not fit. -/
theorem Guest.extended_quotients_missed :
    ∃ ss m', Guest.Codes { arch := .ppc32 } ⟨0x7C642F56⟩ ⟨4, .continue, none⟩ ss ∧
      runAll (.integral .big) #[] ss (halving .ppc32) = .behind m' ∧
      m'.state (Layout.specialOffset .ppc32 .xerOv) = flagByte false ∧
      ¬Sign.signed.Fits 32 (Sign.signed.extendedQuotient
        ((halving .ppc32).state.operand .ppc32 .big 4)
        ((halving .ppc32).state.operand .ppc32 .big 5)) := by
  let g : Guest := { arch := .ppc32 }
  let code : ByteArray := ⟨#[0x7C, 0x64, 0x2F, 0x56]⟩
  have hcomputes := Guest.computes_extended g (w := ⟨0x7C642F56⟩) (s := .signed) (v := .w32)
    (by decide) rfl nofun (Interp.integral_integral .big)
  obtain ⟨ss, out, m', hcodes, hout, hm', hshows⟩ :=
    hcomputes.exists_run (by decide) code (by decide) (by decide) (halving .ppc32)
  refine ⟨ss, m', hcodes, hm', hshows.overflow _ ?_, by decide +kernel⟩
  rw [hout.overflow]
  decide +kernel

end PowerLift
