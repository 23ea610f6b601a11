import PowerLift.Proofs.IntegerForms

/-!
# Sums and differences

The instructions that add and subtract compute sums of two operands and a carry. Their carry is the
carry out of the exact unsigned sum, and they overflow where the exact signed sum does not fit.
-/

namespace PowerLift

open Point (Knows Next Before Quiet)

variable {M : Type} {I : Interp M} {env : Env} {c : Point M} {w : Insn}

/-! ## The operands of each sum -/

/-- The sum that an instruction computes, from the values of its registers and the carry. Immediate
sums take register zero for zero, a difference adds a complement and one, and extended sums add the
carry. -/
def Insn.addends? (w : Insn) {n : Nat} (a b : BitVec n) (carry : Bool) : Option (Addends n) :=
  match w.opcode with
  | 14 => some ⟨if w.ra = 0 then 0 else a, w.simm64.setWidth n, false⟩
  | 15 => some ⟨if w.ra = 0 then 0 else a, (w.simm64 <<< 16).setWidth n, false⟩
  | 12 | 13 => some ⟨a, w.simm64.setWidth n, false⟩
  | 8 => some ⟨~~~a, w.simm64.setWidth n, true⟩
  | 31 => match w.xo9 with
      | 266 | 10 => some ⟨a, b, false⟩
      | 138 => some ⟨a, b, carry⟩
      | 234 => some ⟨a, .allOnes n, carry⟩
      | 202 => some ⟨a, 0, carry⟩
      | 40 | 8 => some ⟨~~~a, b, true⟩
      | 136 => some ⟨~~~a, b, carry⟩
      | 232 => some ⟨~~~a, .allOnes n, carry⟩
      | 200 => some ⟨~~~a, 0, carry⟩
      | 104 => some ⟨~~~a, 0, true⟩
      | _ => none
  | _ => none

/-- The sums that write the carry. -/
def Insn.writesCarry (w : Insn) : Bool :=
  match w.opcode with
  | 8 | 12 | 13 => true
  | 31 => [10, 138, 234, 202, 8, 136, 232, 200].contains w.xo9
  | _ => false

/-- What an instruction that adds or subtracts computes. -/
def Insn.sum? (w : Insn) (arch : Arch) (order : ByteOrder) (σ : GuestState) :
    Option (Computed arch.word.ty.bits) :=
  (w.addends? (σ.operand arch order w.ra) (σ.operand arch order w.rb) (σ.carry arch)).map fun s =>
    { result := s.sum
      carry := if w.writesCarry then some s.carries else none
      overflow := if w.opcode = 31 ∧ w.oe then some s.overflows else none
      record := w.opcode = 13 ∨ w.opcode = 31 ∧ w.record }

/-! ## Extended sums -/

theorem Word.setWidth_allOnes (w : Word) : (BitVec.allOnes 64).setWidth w.ty.bits = .allOnes _ := by
  cases w <;> rfl

theorem Word.setWidth_flagByte (w : Word) (b : Bool) :
    (flagByte b).setWidth w.ty.bits = FlagRule.carryWord w b := by
  cases w <;> cases b <;> rfl

namespace Arithmetic

variable {a b : Expr} {t : Nat} {x y : BitVec env.arch.word.ty.bits}

/-- The second operand of an extended sum. -/
def ExtendedOperand.value {n : Nat} (y : BitVec n) : ExtendedOperand → BitVec n
  | register => y
  | minusOne => .allOnes n
  | zero => 0

theorem extendedOperand_reaches {kind : ExtendedOperand} {base : String} {f : Expr → Lift Unit}
    {Q : Unit → Point M → Prop} (hkind : kind ≠ .register → w.rb = 0)
    (hb : ∀ {S}, c.Knows I S b ⟨env.arch.word.ty, y⟩)
    (hf : ∀ r c' [Next I c c'], Quiet c c' →
      (∀ {S}, c'.Knows I S r ⟨env.arch.word.ty, kind.value y⟩) → Reaches env I c' (f r) Q) :
    Reaches env I c (extendedOperand w base kind b >>= f) Q := by
  unfold extendedOperand
  cases kind with
  | register =>
      simp only [bind_assoc]
      refine .listed ?_
      intro c₁ _ hquiet
      exact .ret (hf b c₁ hquiet hb.up)
  | minusOne =>
      simp only [bind_assoc]
      refine .give (reservedZero_still (I := I) c.level _ (hkind nofun)).exec_eq (.listed ?_)
      intro c₁ _ hquiet
      exact .give rfl (hf _ c₁ hquiet
        ((Point.knows_imm _).congr (congrArg (Value.mk _) env.arch.word.setWidth_allOnes)))
  | zero =>
      simp only [bind_assoc]
      refine .give (reservedZero_still (I := I) c.level _ (hkind nofun)).exec_eq (.listed ?_)
      intro c₁ _ hquiet
      exact .give rfl (hf _ c₁ hquiet
        ((Point.knows_imm _).congr (congrArg (Value.mk _) (BitVec.setWidth_zero _ _))))

theorem carryIn_reaches (hI : I.Integral) (hlayout : env.layout = env.arch) {f : Expr → Lift Unit}
    {Q : Unit → Point M → Prop}
    (hf : ∀ r c' [Next I c c'], Quiet c c' →
      (∀ {S}, c'.Knows I S r ⟨env.arch.word.ty,
        FlagRule.carryWord env.arch.word (c.state.carry env.arch)⟩) → Reaches env I c' (f r) Q) :
    Reaches env I c (Lift.getXerCa >>= fun e => Lift.widen e false >>= fun e => Lift.bind e >>= f)
      Q := by
  have hflag : c.Knows I (· = c.state) _ _ := Point.knows_flag hI.toBitwise env.layout .xerCa
  refine .give rfl (.give (exec_widenByte hflag)
    (.bind (hflag.byteCast hI.toBitwise env.arch) rfl ?_))
  intro r c₁ _ hquiet hr
  rw [env.arch.word.setWidth_flagByte, hlayout] at hr
  exact hf r c₁ hquiet hr

theorem extendedSum_binds (hI : I.Integral) (hlayout : env.layout = env.arch) {subtract : Bool}
    {kind : ExtendedOperand} (hkind : kind ≠ .register → w.rb = 0)
    (ht : c.stage.Open t env.arch.word.ty) (hheld : Held env I c a b x y) (record : Bool)
    {s : Addends env.arch.word.ty.bits}
    (hs : s = ⟨if subtract then ~~~x else x, kind.value y, c.state.carry env.arch⟩) :
    BindsResult env I c (extendedSum w subtract kind a b t) t
      { result := s.sum
        carry := some s.carries
        overflow := if w.oe then some s.overflows else none
        record } := by
  unfold extendedSum
  refine extendedOperand_reaches hkind hheld.right ?_
  intro r c₁ _ hquiet hr
  refine carryIn_reaches hI hlayout ?_
  intro carryIn c₂ _ hquiet' hcarry
  rw [hquiet.state_eq] at hcarry
  have hstate : c₂.state = c.state := by rw [hquiet'.state_eq, hquiet.state_eq]
  have ht₂ := hquiet'.isOpen _ _ (hquiet.isOpen _ _ ht)
  subst hs
  rw [← hstate] at hcarry ⊢
  have ha : ∀ {S}, c₂.Knows I S a ⟨env.arch.word.ty, x⟩ := hheld.left.up
  have hr : ∀ {S}, c₂.Knows I S r ⟨env.arch.word.ty, kind.value y⟩ := hr.up
  cases subtract with
  | false =>
      refine .give rfl (.ret (BindsResult.assign ht₂
        ((ha.add hr hI.toModular).add hcarry hI.toModular) ?_))
      intro c₃ _ hres
      exact .carryThenOverflow hI hlayout hres (FlagRule.addE_carry hI hcarry.up hres ha.up)
        (FlagRule.add_overflow hI.toModular (.inr rfl) hres ha.up hr.up)
  | true =>
      refine .give rfl (.give rfl (.ret (BindsResult.assign ht₂
        (((ha.not hI.toBitwise).add hr hI.toModular).add hcarry hI.toModular) ?_)))
      intro c₃ _ hres
      exact .carryThenOverflow hI hlayout hres (FlagRule.subfE_carry hI hcarry.up hres hr.up)
        (FlagRule.subf_overflow hI.toModular (.inr (.inr rfl)) hres ha.up rfl hr.up)

end Arithmetic

/-! ## Three-register forms -/

namespace Arithmetic

variable {a b : Expr} {t : Nat} {x y : BitVec env.arch.word.ty.bits}

/-- A form that announces itself, binds its sum and sets flags. -/
theorem sum_binds {line : String} {op : SizedOp} {l r : Expr}
    {out : Computed env.arch.word.ty.bits} {flags : Unit → Lift Unit}
    (ht : c.stage.Open t env.arch.word.ty) (hheld : Held env I c a b x y)
    (he : ∀ {c' : Point M} {S}, Held env I c' a b x y →
      c'.Knows I S (.bin (op.atWidth env.arch.word.width) l r) ⟨env.arch.word.ty, out.result⟩)
    (hflags : ∀ c' : Point M, Held env I c' a b x y →
      (∀ {S}, c'.Knows I S (.tmp t) ⟨env.arch.word.ty, out.result⟩) →
      Reaches env I c' (flags ()) fun _ c'' =>
        c''.state = c'.state.withFlags env.arch out.carry out.overflow) :
    BindsResult env I c (Lift.listed line >>= fun _ => Lift.wordOp op >>= fun op =>
      Lift.assign t (.bin op l r) >>= flags) t out := by
  refine .listed ht ?_
  intro c₁ _ _ ht
  refine .give rfl (.assign ht (he hheld.up) ?_)
  intro c₂ _ hres
  exact hflags c₂ hheld.up hres

theorem registerResult_sums (hI : I.Integral) (hlayout : env.layout = env.arch)
    (hopcode : w.opcode = 31) (hreserved : w.xo9 ∈ [104, 200, 202, 232, 234] → w.rb = 0)
    {s : Addends env.arch.word.ty.bits}
    (hs : w.addends? x y (c.state.carry env.arch) = some s)
    (ht : c.stage.Open t env.arch.word.ty) (hheld : Held env I c a b x y) (record : Bool) :
    BindsResult env I c (registerResult w a b t) t
      { result := s.sum
        carry := if w.writesCarry then some s.carries else none
        overflow := if w.oe then some s.overflows else none
        record } := by
  have hI' := hI.toModular
  have hpos : 0 < env.arch.word.ty.bits := Nat.lt_trans Nat.zero_lt_one env.arch.word.one_lt_bits
  have hsum : ∀ {S e} {c' : Point M}, c'.Knows I S e ⟨_, x + y⟩ →
      c'.Knows I S e ⟨_, Addends.sum ⟨x, y, false⟩⟩ :=
    fun h => h.congr (congrArg _ (Addends.sum_plain x y).symm)
  have hdifference : ∀ {S e} {c' : Point M} (z : BitVec env.arch.word.ty.bits),
      c'.Knows I S e ⟨_, z - x⟩ → c'.Knows I S e ⟨_, Addends.sum ⟨~~~x, z, true⟩⟩ :=
    fun z h => h.congr (congrArg _ (Addends.sum_complement hpos x z).symm)
  unfold registerResult
  simp only [Insn.addends?, hopcode] at hs
  simp only [Insn.writesCarry, hopcode]
  split
  case h_1 hxo =>
    simp only [hxo, Option.some.injEq] at hs ⊢
    subst hs
    refine sum_binds ht hheld (fun hheld => hsum (hheld.left.add hheld.right hI')) ?_
    intro c' hheld hres
    exact .overflowIf hI hlayout hres
      (FlagRule.add_overflow hI' (.inl rfl) hres hheld.left hheld.right)
  case h_2 hxo =>
    simp only [hxo, Option.some.injEq] at hs ⊢
    subst hs
    refine sum_binds ht hheld (fun hheld => hsum (hheld.left.add hheld.right hI')) ?_
    intro c' hheld hres
    exact .give rfl (.carryThenOverflow hI hlayout hres (FlagRule.add_carry hI rfl hres hheld.left)
      (FlagRule.add_overflow hI' (.inl rfl) hres hheld.left hheld.right))
  case h_3 hxo | h_8 hxo =>
    simp only [hxo, Option.some.injEq] at hs ⊢
    exact extendedSum_binds hI hlayout (fun h => absurd rfl h) ht hheld record hs.symm
  case h_4 hxo | h_5 hxo | h_9 hxo | h_10 hxo =>
    have hzero : w.rb = 0 := hreserved (by simp [hxo])
    simp only [hxo, Option.some.injEq] at hs ⊢
    exact extendedSum_binds hI hlayout (fun _ => hzero) ht hheld record hs.symm
  case h_6 hxo =>
    simp only [hxo, Option.some.injEq] at hs ⊢
    subst hs
    refine sum_binds ht hheld (fun hheld => hdifference y (hheld.right.sub hheld.left hI')) ?_
    intro c' hheld hres
    exact .overflowIf hI hlayout hres
      (FlagRule.subf_overflow hI' (.inl rfl) hres hheld.left rfl hheld.right)
  case h_7 hxo =>
    simp only [hxo, Option.some.injEq] at hs ⊢
    subst hs
    refine sum_binds ht hheld (fun hheld => hdifference y (hheld.right.sub hheld.left hI')) ?_
    intro c' hheld hres
    exact .give rfl (.carryThenOverflow hI hlayout hres
      (FlagRule.subf_carry hI (.inl rfl) rfl hres hheld.right)
      (FlagRule.subf_overflow hI' (.inr (.inl rfl)) hres hheld.left rfl hheld.right))
  case h_11 hxo =>
    simp only [hxo, Option.some.injEq] at hs ⊢
    subst hs
    -- The reserved field is looked at before anything is staged.
    have hzero : w.rb = 0 := hreserved (by simp [hxo])
    refine Reaches.give (reservedZero_still (I := I) c.level _ hzero).exec_eq
      (BindsResult.listed ht ?_)
    intro c₁ _ _ ht
    have hheld : Held env I c₁ a b x y := hheld.up
    have hzero : ∀ {S}, c₁.Knows I S (env.imm 0) ⟨env.arch.word.ty, 0⟩ :=
      (Point.knows_imm 0).congr (congrArg (Value.mk _) (BitVec.setWidth_zero _ _))
    refine Reaches.give rfl (.give rfl (BindsResult.assign ht
      (hdifference 0 (hzero.sub hheld.left hI')) ?_))
    intro c₂ _ hres
    exact .overflowIf hI hlayout hres (FlagRule.neg_overflow hI hheld.left.up)
  all_goals simp_all

/-! ## Immediate forms -/

theorem addImmediate_reaches (hlayout : env.layout = env.arch) (hI : I.Integral)
    {left : BitVec env.arch.word.ty.bits}
    (hleft : left = if w.ra = 0 then 0 else c.state.operand env.arch I.order w.ra)
    {imm : BitVec 64} (himm : imm = if w.opcode = 15 then w.simm64 <<< 16 else w.simm64) :
    Reaches env I c (addImmediate w) fun _ c' =>
      c'.state = c.state.withOperand env.arch I.order w.rd
        (Addends.sum ⟨left, imm.setWidth _, false⟩) := by
  unfold addImmediate
  simp only [beq_iff_eq]
  rw [← himm, Addends.sum_plain, hleft]
  refine .give rfl ?_
  split
  next =>
    rw [BitVec.ofNat_eq_ofNat, BitVec.zero_add]
    refine .listed ?_
    intro c₁ _ hquiet
    rw [← hquiet.state_eq]
    exact .ret (.putBound hlayout w.rd_lt (Point.knows_imm imm) rfl)
  next =>
    refine .listed ?_
    intro c₁ _ hquiet
    rw [← hquiet.state_eq]
    have hsum : c₁.Knows I (· = c₁.state) _ _ :=
      (Point.knows_gpr env.arch w.ra).add (Point.knows_imm imm) hI.toModular
    exact .give rfl (.give (exec_getGpr hlayout w.ra_lt) (.putBound hlayout w.rd_lt hsum rfl))

/-- A sum is held and its carry written. -/
theorem holdCarry (hI : I.Integral) (hlayout : env.layout = env.arch) {rule : FlagRule}
    {e l r : Expr} {s : Addends env.arch.word.ty.bits} {f : Expr → Lift Unit}
    {Q : Unit → Point M → Prop} (he : ∀ {S}, c.Knows I S e ⟨env.arch.word.ty, s.sum⟩)
    (hcarry : ∀ res c' [Next I c c'], (∀ {S}, c'.Knows I S res ⟨env.arch.word.ty, s.sum⟩) →
      FlagRule.Holds I c' (fun _ => True) (rule.carry env.arch.word.ty res l r (env.imm 0))
        s.carries)
    (hf : ∀ res c' [Next I c c'], (∀ {S}, c'.Knows I S res ⟨env.arch.word.ty, s.sum⟩) →
      c'.state = c.state.withFlags env.arch (some s.carries) none → Reaches env I c' (f res) Q) :
    Reaches env I c (Lift.bind e >>= fun res => Lift.imm 0 >>= fun zero =>
      Lift.setCarry rule res l r zero >>= fun _ => f res) Q := by
  refine .bind (S := fun _ => True) he trivial ?_
  intro res c₁ _ hquiet hres
  refine .give rfl (.setCarry hI.toBitwise hlayout hres (hcarry res c₁ hres) trivial ?_)
  intro c₂ _ hstate
  rw [hquiet.state_eq] at hstate
  exact @hf res c₂ ⟨Before.leads⟩ hres.up hstate

/-- A sum with an immediate is held and its carry written. -/
theorem addCarrying (hI : I.Integral) (hlayout : env.layout = env.arch)
    {l r : Expr} {x y : BitVec env.arch.word.ty.bits} {f : Expr → Lift Unit}
    {Q : Unit → Point M → Prop} (hl : ∀ {S}, c.Knows I S l ⟨env.arch.word.ty, x⟩)
    (hr : ∀ {S}, c.Knows I S r ⟨env.arch.word.ty, y⟩)
    (hf : ∀ res c' [Next I c c'],
      (∀ {S}, c'.Knows I S res ⟨env.arch.word.ty, Addends.sum ⟨x, y, false⟩⟩) →
      c'.state = c.state.withFlags env.arch (some (Addends.carries ⟨x, y, false⟩)) none →
        Reaches env I c' (f res) Q) :
    Reaches env I c (Lift.wordOp .add >>= fun op => Lift.bind (.bin op l r) >>= fun res =>
      Lift.imm 0 >>= fun zero => Lift.setCarry .add res l r zero >>= fun _ => f res) Q := by
  have hsum : ∀ {S}, c.Knows I S _ ⟨_, Addends.sum ⟨x, y, false⟩⟩ :=
    (hl.add hr hI.toModular).congr (congrArg _ (Addends.sum_plain _ _).symm)
  refine .give rfl (holdCarry hI hlayout hsum ?_ hf)
  intro res c₁ _ hres
  exact FlagRule.add_carry hI rfl hres hl.up

/-- A result is written behind its comparison. -/
theorem putCompared (hI : I.Integral) (hlayout : env.layout = env.arch) {e : Expr}
    {x : BitVec env.arch.word.ty.bits} (he : ∀ {S}, c.Knows I S e ⟨env.arch.word.ty, x⟩)
    {σ : GuestState} {carry : Option Bool} (hstate : c.state = σ.withFlags env.arch carry none) :
    Reaches env I c (Lift.recordResult e >>= fun _ => Lift.putGpr w.rd e) fun _ c' =>
      c'.state = σ.after env.arch I.order w.rd { result := x, carry, record := true } := by
  refine .recordResult (S := fun _ => True) hI hlayout he trivial ?_
  intro c₁ _ hcompared
  refine .last (.putGpr (S := fun _ => True) hlayout w.rd_lt he.up trivial ?_)
  intro c₂ _ hwritten
  rw [hcompared, GuestState.compared_withOperand w.rd_lt, hstate] at hwritten
  exact .pure hwritten

theorem immediate_reaches (hI : I.Integral) (hlayout : env.layout = env.arch)
    {out : Computed env.arch.word.ty.bits} (hopcode : w.opcode ≠ 31)
    (hout : w.sum? env.arch I.order c.state = some out) :
    Reaches env I c (immediate w) fun _ c' =>
      c'.state = c.state.after env.arch I.order w.rd out := by
  obtain ⟨s, hs, rfl⟩ := Option.map_eq_some_iff.mp hout
  unfold immediate
  split
  next himm =>
    refine (addImmediate_reaches hlayout hI rfl rfl).mono ?_
    intro _ c' hstate
    rw [hstate, ← GuestState.after_plain]
    rcases himm with hw | hw <;> simp only [Insn.addends?, hw, Option.some.injEq] at hs <;>
      subst hs <;> simp [Insn.writesCarry, hw]
  next himm =>
    refine .hold hlayout w.ra_lt ?_
    intro a c₁ _ hquiet ha
    refine .give rfl ?_
    have hvalue : ∀ {S}, c₁.Knows I S (env.imm w.simm64) _ := Point.knows_imm w.simm64
    dsimp only
    split
    case h_1 hw =>
      simp only [Insn.addends?, hw, Option.some.injEq] at hs
      subst hs
      simp only [Insn.writesCarry, hw]
      refine .listed ?_
      intro c₂ _ hquiet'
      refine addCarrying hI hlayout ha.up hvalue.up ?_
      intro res c₃ _ hres hstate
      rw [hquiet'.state_eq, hquiet.state_eq] at hstate
      exact .ret (.putResult hlayout w.rd_lt hres hstate)
    case h_2 hw =>
      simp only [Insn.addends?, hw, Option.some.injEq] at hs
      subst hs
      simp only [Insn.writesCarry, hw]
      refine .listed ?_
      intro c₂ _ hquiet'
      refine addCarrying hI hlayout ha.up hvalue.up ?_
      intro res c₃ _ hres hstate
      rw [hquiet'.state_eq, hquiet.state_eq] at hstate
      exact putCompared hI hlayout hres hstate
    case h_4 hw =>
      simp only [Insn.addends?, hw, Option.some.injEq] at hs
      subst hs
      simp only [Insn.writesCarry, hw]
      refine .listed ?_
      intro c₂ _ hquiet'
      have hpos := env.arch.word.one_lt_bits
      have hdifference : ∀ {S}, c₂.Knows I S _ ⟨_, Addends.sum ⟨~~~_, _, true⟩⟩ :=
        (hvalue.up.sub ha.up hI.toModular).congr
          (congrArg _ (Addends.sum_complement (by omega) _ _).symm)
      refine .give rfl (holdCarry hI hlayout hdifference ?_ ?_)
      · intro res c₃ _ hres
        exact FlagRule.subf_carry hI (.inr rfl) rfl hres hvalue.up
      · intro res c₃ _ hres hstate
        rw [hquiet'.state_eq, hquiet.state_eq] at hstate
        exact .ret (.putResult hlayout w.rd_lt hres hstate)
    case h_3 hw => simp [Insn.addends?, hw] at hs
    case h_5 => simp_all [Insn.addends?]

end Arithmetic

/-! ## The instructions -/

/-- The instructions that add and subtract. Those without a second register reserve its field. -/
def Insn.AddsOrSubtracts (w : Insn) : Prop :=
  w.opcode ∈ [8, 12, 13, 14, 15] ∨
    w.opcode = 31 ∧ w.xo9 ∈ [8, 10, 40, 104, 136, 138, 200, 202, 232, 234, 266] ∧
      (w.xo9 ∈ [104, 200, 202, 232, 234] → w.rb = 0)

instance (w : Insn) : Decidable w.AddsOrSubtracts := inferInstanceAs (Decidable (_ ∨ _))

namespace Insn.AddsOrSubtracts

theorem mem_arithmeticForms {xo : Nat}
    (hxo : xo ∈ [8, 10, 40, 104, 136, 138, 200, 202, 232, 234, 266]) :
    xo ∈ Route.arithmeticForms := by
  have hall : ∀ xo ∈ [8, 10, 40, 104, 136, 138, 200, 202, 232, 234, 266],
      xo ∈ Route.arithmeticForms := by decide
  exact hall xo hxo

theorem exists_addends (hw : w.AddsOrSubtracts) {n : Nat} (a b : BitVec n) (carry : Bool) :
    ∃ s, w.addends? a b carry = some s := by
  unfold addends?
  rcases hw with hopcode | ⟨hopcode, hxo, -⟩
  · simp only [List.mem_cons, List.not_mem_nil, or_false] at hopcode
    rcases hopcode with h | h | h | h | h <;> simp [h]
  · simp only [List.mem_cons, List.not_mem_nil, or_false] at hxo
    rcases hxo with h | h | h | h | h | h | h | h | h | h | h <;> simp [hopcode, h]

theorem route (hw : w.AddsOrSubtracts) :
    ∃ pattern, Route.find? w = some ⟨pattern, [], .arithmetic⟩ := by
  rcases hw with hopcode | ⟨hopcode, hxo, -⟩
  · have honly : ∀ opcode ∈ [8, 12, 13, 14, 15],
        Route.ofOpcode opcode = Route.only .arithmetic [] := by decide
    exact ⟨.any, Route.find?_only (honly _ hopcode)⟩
  · exact ⟨_, Route.find?_arithmetic hopcode (mem_arithmeticForms hxo)⟩

theorem lift_reaches (hw : w.AddsOrSubtracts) (hI : I.Integral) (hlayout : env.layout = env.arch) :
    ∃ out, w.sum? env.arch I.order c.state = some out ∧
      Reaches env I c (Arithmetic.lift w) fun _ c' =>
        c'.state = c.state.after env.arch I.order w.rd out := by
  obtain ⟨s, hs⟩ := hw.exists_addends (c.state.operand env.arch I.order w.ra)
    (c.state.operand env.arch I.order w.rb) (c.state.carry env.arch)
  refine ⟨_, congrArg (Option.map _) hs, ?_⟩
  rcases hw with hopcode | ⟨hopcode, hxo, hreserved⟩
  · have hlift : Arithmetic.lift w = Arithmetic.immediate w := by
      simp only [List.mem_cons, List.not_mem_nil, or_false] at hopcode
      rcases hopcode with h | h | h | h | h <;> simp only [Arithmetic.lift, h]
    rw [hlift]
    refine Arithmetic.immediate_reaches hI hlayout ?_ (congrArg (Option.map _) hs)
    rintro h
    simp [h] at hopcode
  · rw [Arithmetic.lift_registers hopcode (mem_arithmeticForms hxo)]
    refine Arithmetic.registers_reaches hI hlayout (by simp [hopcode]) ?_
    intro a b t c' hstate ht hheld
    have hcarry : w.addends? (c.state.operand env.arch I.order w.ra)
        (c.state.operand env.arch I.order w.rb) (c'.state.carry env.arch) = some s := by
      rw [hstate]
      exact hs
    simpa only [hopcode, true_and] using Arithmetic.registerResult_sums hI hlayout hopcode hreserved
      hcarry ht hheld (decide (w.opcode = 13 ∨ w.opcode = 31 ∧ w.record))

end Insn.AddsOrSubtracts

/-- An instruction that adds or subtracts leaves the sum in its target. The carry, which the
carrying forms alone write, is the carry out of the exact unsigned sum. The overflow, which is
written on demand, tells that the exact signed sum does not fit, and the summary overflow gathers
it. Condition field 0, on demand, has the sign of the sum and the new summary overflow. Nothing else
in the guest state changes. -/
theorem Guest.sums_computed (g : Guest) (hw : w.AddsOrSubtracts) (hI : I.Integral) :
    g.ComputesInto w w.rd I fun arch σ out => w.sum? arch I.order σ = some out := by
  obtain ⟨pattern, hroute⟩ := hw.route
  refine Guest.computesInto hroute rfl w.rd_lt
    (fun order arch σ out => w.sum? arch order σ = some out) ?_ hI
  intro N J env c hJ hlayout _
  exact hw.lift_reaches hJ hlayout

/-- A machine in which general register 3 is one and register 4 the least number. -/
def borrowing : Machine Unit :=
  .start () fun o => if o = 15 then 1 else if o = 16 then 0x80 else 0

/-- The code of `subfeo. r3,r3,r4` takes one and a borrow from the least number, which wraps
around. -/
theorem Guest.sums_computed_borrow :
    ∃ ss m', Guest.Codes { arch := .ppc32 } ⟨0x7C632511⟩ ⟨4, .continue, none⟩ ss ∧
      runAll (.integral .big) #[] ss borrowing = .behind m' ∧
      GuestState.Shows .ppc32 .big 3
        { result := 0x7FFFFFFE, carry := some true, overflow := some true, record := true }
        borrowing.state m'.state := by
  let g : Guest := { arch := .ppc32 }
  let code : ByteArray := ⟨#[0x7C, 0x63, 0x25, 0x11]⟩
  have hcomputes := Guest.sums_computed g (w := ⟨0x7C632511⟩) (by decide)
    (Interp.integral_integral .big)
  obtain ⟨ss, out, m', hcodes, hout, hm', hshows⟩ :=
    hcomputes.exists_run (by decide) code (by decide) (by decide) borrowing
  have hout' : Insn.sum? ⟨0x7C632511⟩ .ppc32 .big borrowing.state =
      some { result := 0x7FFFFFFE, carry := some true, overflow := some true, record := true } := by
    decide +kernel
  obtain rfl := Option.some.inj (hout.symm.trans hout')
  exact ⟨ss, m', hcodes, hm', hshows⟩

end PowerLift
