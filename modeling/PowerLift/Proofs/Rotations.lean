import PowerLift.Proofs.IntegerForms
import PowerLift.Proofs.Shifts

/-!
# Rotates

Rotates take a part of the rotated source under a mask, and may keep the rest of the target.
-/

namespace PowerLift

open Point (Knows Next Before Quiet)
open PowerLift.Expr (un bin)

variable {M : Type} {I : Interp M} {env : Env} {c : Point M} {w : Insn} {S : GuestState → Prop}

/-! ## What they compute -/

/-- A word in both halves of a register, where there are two. -/
def replicated (arch : Arch) (x : BitVec 32) : BitVec arch.word.ty.bits :=
  match arch with
  | .ppc32 => x
  | .ppc64 => x ++ x

namespace Insn

/-- The mask of a word rotate, which counts from the beginning of the lower word. -/
def wordMask (w : Insn) (arch : Arch) : BitVec arch.word.ty.bits :=
  let before := arch.word.ty.bits - 32
  Bits.ringMask _ (w.mb5 + before) (w.me5 + before)

/-- A rotated word under its mask. -/
def turnedWord (w : Insn) (arch : Arch) (x : BitVec 32) (amount : Nat)
    (kept : BitVec arch.word.ty.bits) : Computed arch.word.ty.bits :=
  { result := underMask (w.wordMask arch) (replicated arch (x.rotateLeft amount)) kept
    record := w.record }

/-- A rotated doubleword under the mask of its form. -/
def turnedDoubleword? (w : Insn) {n : Nat} (s b a : BitVec n) : Option (Computed n) :=
  let under (mb me : Nat) (x kept : BitVec n) : Computed n :=
    { result := underMask (Bits.ringMask n mb me) x kept, record := w.record }
  match w.xo3 with
  | 0 => some (under w.mb6 63 (s.rotateLeft w.sh6) 0)
  | 1 => some (under 0 w.mb6 (s.rotateLeft w.sh6) 0)
  | 2 => some (under w.mb6 (63 - w.sh6) (s.rotateLeft w.sh6) 0)
  | 3 => some (under w.mb6 (63 - w.sh6) (s.rotateLeft w.sh6) a)
  | _ => match w.xo4 with
      | 8 => some (under w.mb6 63 (s.rotateLeft (b.toNat % 64)) 0)
      | 9 => some (under 0 w.mb6 (s.rotateLeft (b.toNat % 64)) 0)
      | _ => none

end Insn

/-! ## Rotated words -/

/-- The environment of a 64-bit processor. -/
def Env.wide (env : Env) : Env := { env with arch := .ppc64 }

theorem Env.exists_wide (harch : env.arch = .ppc64) : ∃ e : Env, env = e.wide := by
  refine ⟨env, ?_⟩
  cases env
  cases harch
  rfl

/-- An amount that is taken from the low word of a register. -/
theorem Point.knows_lowAmount (hI : I.Bitwise) (env : Env) (σ : GuestState) (i : Nat) {k : Nat}
    (hk : k ≤ 32) {m : BitVec 32} (hm : m = .ofNat 32 (2 ^ k - 1)) :
    ∃ y : BitVec 32, y.toNat = (σ.operand env.arch I.order i).toNat % 2 ^ k ∧
      ∀ c : Point M,
        c.Knows I (· = σ) (bin .and32 (env.low32 (.gpr env.arch i)) (.u32 m)) ⟨.i32, y⟩ := by
  subst hm
  refine ⟨(σ.operand env.arch I.order i).setWidth 32 &&& .ofNat 32 (2 ^ k - 1), ?_, fun c =>
    .and (w := .w32) (knows_word hI env i) (.const (.u32 _)) hI⟩
  rw [toNat_and_low _ hk, BitVec.toNat_setWidth, Nat.mod_mod_of_dvd _ (Nat.pow_dvd_pow 2 hk)]

/-- An amount that is taken from a register. -/
theorem Point.knows_amount (hI : I.Bitwise) (harch : env.arch = .ppc64) (σ : GuestState) (i : Nat)
    {k : Nat} (hk : k ≤ 64) {m : BitVec 64} (hm : m = .ofNat 64 (2 ^ k - 1)) :
    ∃ y : BitVec 64, y.toNat = (σ.operand env.arch I.order i).toNat % 2 ^ k ∧
      ∀ c : Point M, c.Knows I (· = σ) (bin .and64 (.gpr env.arch i) (.u64 m)) ⟨.i64, y⟩ := by
  subst hm
  rw [harch]
  let x : BitVec 64 := σ.operand .ppc64 I.order i
  exact ⟨x &&& .ofNat 64 (2 ^ k - 1), toNat_and_low x hk, fun c =>
    .and (w := .w64) (knows_gpr .ppc64 i) (.const (.u64 _)) hI⟩

theorem Logic.finish_reaches (hI : I.Integral) (hlayout : env.layout = env.arch) {e : Expr}
    {x : BitVec env.arch.word.ty.bits} (he : c.Knows I S e ⟨env.arch.word.ty, x⟩) (hS : S c.state)
    {σ : GuestState} {carry : Option Bool} (hstate : c.state = σ.withFlags env.arch carry none) :
    Reaches env I c (finish w e) fun _ c' =>
      c'.state = σ.after env.arch I.order w.ra { result := x, carry, record := w.record } := by
  unfold finish
  refine .bind he hS ?_
  intro r c' _ hquiet hr
  rw [← hquiet.state_eq] at hstate
  exact .finish hI hlayout w.ra_lt hr { result := x, carry, record := w.record } hstate rfl

namespace Rotate

/-- A word stands in both halves. -/
theorem knows_replicated (hI : I.Bitwise) {e : Expr} {x : BitVec 32}
    (he : c.Knows I S e ⟨.i64, x.setWidth 64⟩) :
    c.Knows I S (bin .or64 e (bin .shl64 e (.u8 32))) ⟨.i64, replicated .ppc64 x⟩ := by
  have hupper := Point.Knows.shl (w := .w64) he hI (.const (.u8 32)) (by decide)
  exact (Point.Knows.or (w := .w64) he hupper hI).congr
    (congrArg (Value.mk .i64) (append_self x).symm)

/-- The part of a word rotate behind the rotation: a mask takes its part, and the target keeps the
rest where the form inserts. -/
theorem maskedWord_reaches (hI : I.Integral) (hlayout : env.layout = env.arch) {rot : Expr}
    {x m : BitVec env.arch.word.ty.bits} {mask : BitVec 64} {σ : GuestState} (hstate : c.state = σ)
    (hrot : ∀ {S}, c.Knows I S rot ⟨env.arch.word.ty, x⟩) (hm : mask.setWidth _ = m) :
    Reaches env I c (do
      let masked := bin (← Lift.wordOp .and) rot (← Lift.imm mask)
      if w.opcode = 20 then
        let kept := bin (← Lift.wordOp .and) (← Lift.getGpr w.ra) (← Lift.imm (~~~mask))
        Logic.finish w (bin (← Lift.wordOp .or) masked kept)
      else Logic.finish w masked) fun _ c' =>
        c'.state = σ.after env.arch I.order w.ra
          { result := underMask m x (if w.opcode = 20 then σ.operand env.arch I.order w.ra else 0)
            record := w.record } := by
  subst hm hstate
  have hwidth : env.arch.word.ty.bits ≤ 64 := by cases env.arch <;> decide
  have hmasked : ∀ {S}, c.Knows I S _ _ := hrot.and (Point.knows_imm mask) hI.toBitwise
  refine .give rfl (.give rfl ?_)
  split
  next hinsert =>
    have hcomplement : c.Knows I (· = c.state) (env.imm (~~~mask)) ⟨_, ~~~mask.setWidth _⟩ :=
      (Point.knows_imm (~~~mask)).congr (congrArg (Value.mk _) (BitVec.setWidth_not hwidth))
    have hkept := (Point.knows_gpr env.arch w.ra).and hcomplement hI.toBitwise
    refine .give rfl (.give (exec_getGpr hlayout w.ra_lt) (.give rfl (.give rfl ?_)))
    exact Logic.finish_reaches hI hlayout (hmasked.or hkept hI.toBitwise) rfl rfl
  next =>
    rw [underMask_zero]
    exact Logic.finish_reaches (S := fun _ => True) hI hlayout hmasked trivial rfl

/-- A rotated word is spread over the register, and its mask goes with it. -/
theorem spread_reaches (hI : I.Bitwise) {rot : Expr} {x : BitVec 32}
    (hrot : ∀ {S}, c.Knows I S rot ⟨.i32, x⟩) {f : Expr × BitVec 64 → Lift Unit}
    {Q : Unit → Point M → Prop}
    (hf : ∀ r mask c' [Before I c c'], c'.state = c.state →
      (∀ {S}, c'.Knows I S r ⟨env.arch.word.ty, replicated env.arch x⟩) →
      mask.setWidth _ = w.wordMask env.arch → Reaches env I c' (f (r, mask)) Q) :
    Reaches env I c (do
      if ← Lift.mode64 then
        let r ← Lift.bind (un (.cast .zext32to64) rot)
        let mask ← Lift.ofExcept (Bits.mask32In64 w.mb5 w.me5)
        f (← pure (bin .or64 r (bin .shl64 r (.u8 32)), mask))
      else
        let mask ← Lift.ofExcept (Bits.mask32 w.mb5 w.me5)
        f (← pure (rot, mask.setWidth 64))) Q := by
  have hmb : w.mb5 < 32 := w.bits_lt 6 5
  have hme : w.me5 < 32 := w.bits_lt 1 5
  cases env with
  | mk arch =>
      refine .give rfl ?_
      cases arch with
      | ppc32 =>
          have hmask : Bits.mask32 w.mb5 w.me5 = .ok (Bits.ringMask 32 w.mb5 w.me5) :=
            if_pos ⟨hmb, hme⟩
          rw [hmask]
          refine .give rfl (.ret (hf rot _ c rfl hrot ?_))
          exact (BitVec.setWidth_setWidth_of_le _ (show 32 ≤ 64 by decide)).trans
            (BitVec.setWidth_eq _)
      | ppc64 =>
          have hmask : Bits.mask32In64 w.mb5 w.me5 =
              .ok (Bits.ringMask 64 (w.mb5 + 32) (w.me5 + 32)) := by
            unfold Bits.mask32In64
            rw [if_neg (by rw [UInt32.size]; omega), mask64_eq (by omega) (by omega)]
          rw [hmask]
          refine .bind (S := fun _ => True) (hrot.un rfl (hI.cast .zext32to64 rfl .i32 rfl x))
            trivial ?_
          intro r c₁ _ hquiet hr
          exact .give rfl (.ret (hf _ _ c₁ hquiet.state_eq (knows_replicated hI hr)
            (BitVec.setWidth_eq _)))

theorem rotateWord_reaches (hI : I.Integral) (hlayout : env.layout = env.arch) :
    Reaches env I c (rotateWord w) fun _ c' =>
      c'.state = c.state.after env.arch I.order w.ra (w.turnedWord env.arch
        ((c.state.operand env.arch I.order w.rs).setWidth 32)
        (if w.opcode = 23 then (c.state.operand env.arch I.order w.rb).toNat % 32 else w.sh5)
        (if w.opcode = 20 then c.state.operand env.arch I.order w.ra else 0)) := by
  have hs : ∀ c' : Point M, c'.Knows I (· = c.state) _ _ := fun c' =>
    Point.knows_word hI.toBitwise env w.rs
  unfold rotateWord
  refine .give (exec_getGpr hlayout w.rd_lt) (.give rfl ?_)
  extract_lets masked rotated
  -- Behind the amount, both forms go on alike.
  have hrotated : ∀ {amount : Expr} {k : BitVec 8} (c' : Point M), c'.state = c.state →
      c'.Knows I (· = c.state) amount ⟨.i8, k⟩ → k.toNat < 32 →
      Reaches env I c' (rotated amount) fun _ c'' =>
        c''.state = c.state.after env.arch I.order w.ra (w.turnedWord env.arch
          ((c.state.operand env.arch I.order w.rs).setWidth 32) k.toNat
          (if w.opcode = 20 then c.state.operand env.arch I.order w.ra else 0)) := by
    intro amount k c₁ hstate hamount hk
    refine .bind hamount hstate ?_
    intro amount c₂ _ hquiet hamount
    have hstate := hquiet.state_eq.trans hstate
    refine .bind (Point.Knows.rotate (v := .w32) hI.toModular (hs c₂) hamount hk) hstate ?_
    intro rot c₃ _ hquiet' hrot
    have hstate := hquiet'.state_eq.trans hstate
    refine spread_reaches hI.toBitwise hrot ?_
    intro r mask c₄ _ hstate' hr hmask
    exact maskedWord_reaches hI hlayout (hstate'.trans hstate) hr hmask
  split
  next hregister =>
    obtain ⟨y, hy, hamount⟩ := Point.knows_lowAmount (m := 31) hI.toBitwise env c.state w.rb
      (show 5 ≤ 32 by decide) rfl
    refine .listed ?_
    intro c₁ _ hquiet
    refine .give (exec_getGpr hlayout w.rb_lt) (.give rfl (.ret ?_))
    obtain ⟨k, hk, hbyte⟩ := (hamount c₁).nearByte (v := .w32) hI.toBitwise hy (by omega)
    have hreaches := hrotated c₁ hquiet.state_eq hbyte (by omega)
    rw [hk] at hreaches
    rwa [if_pos hregister]
  next =>
    refine .listed ?_
    intro c₁ _ hquiet
    have hsh : w.sh5 < 32 := w.rb_lt
    obtain ⟨k, hk, hamount⟩ := Point.knows_byte (M := M) (I := I) (n := w.sh5) (by omega)
    have hreaches := hrotated c₁ hquiet.state_eq hamount (by omega)
    rw [hk] at hreaches
    rw [if_neg (by assumption)]
    exact .ret hreaches

/-! ## Rotated doublewords -/

/-- A rotated value and its mask are those of the form. -/
def MaskedRotate.Fits (r : MaskedRotate) (I : Interp M) (c : Point M) (S : GuestState → Prop)
    (w : Insn) (s b : BitVec 64) : Prop :=
  ∃ x, c.Knows I S r.value ⟨.i64, x⟩ ∧ ∀ a, w.turnedDoubleword? s b a =
    some { result := underMask r.mask x (if r.insert then a else 0), record := w.record }

/-- A rotated value is given its mask. -/
theorem masked_reaches {e : Expr} {x s b : BitVec 64} {insert : Bool} {mb me : Nat} {line : String}
    {σ : GuestState} (hstate : c.state = σ) (he : c.Knows I S e ⟨.i64, x⟩) (hmb : mb < 64)
    (hme : me < 64) (hform : ∀ a, w.turnedDoubleword? s b a =
      some { result := underMask (Bits.ringMask 64 mb me) x (if insert then a else 0)
             record := w.record }) :
    Reaches env I c (do
      Lift.listed line
      return ⟨e, ← Lift.ofExcept (Bits.mask64 mb me), insert⟩) fun r c' =>
        c'.state = σ ∧ MaskedRotate.Fits r I c' S w s b := by
  rw [mask64_eq hmb hme]
  refine .listed ?_
  intro c₁ _ hquiet
  exact .give rfl (.pure ⟨hquiet.state_eq.trans hstate, x, he.up, hform⟩)

theorem rotateFixed_reaches (hI : I.Bitwise) {e : Expr} {s b : BitVec 64}
    (he : c.Knows I S e ⟨.i64, s⟩) (hfixed : w.xo3 ≤ 3) :
    Reaches env I c (rotateFixed w e) fun r c' => c'.state = c.state ∧ r.Fits I c' S w s b := by
  have hmb := w.mb6_lt
  have hsh := w.sh6_lt
  have hrot := Point.Knows.rotateBy (v := .w64) hI he w.sh6
  unfold rotateFixed
  dsimp only
  split
  next hxo =>
    refine masked_reaches rfl hrot hmb (by decide) fun a => ?_
    simp only [Insn.turnedDoubleword?, hxo]
    rfl
  next hxo =>
    refine masked_reaches rfl hrot (by decide) hmb fun a => ?_
    simp only [Insn.turnedDoubleword?, hxo]
    rfl
  next hxo =>
    refine masked_reaches rfl hrot hmb (by omega) fun a => ?_
    simp only [Insn.turnedDoubleword?, hxo]
    rfl
  next hzero hone htwo =>
    have hne : w.xo3 ≠ 0 ∧ w.xo3 ≠ 1 ∧ w.xo3 ≠ 2 := ⟨hzero, hone, htwo⟩
    have hxo : w.xo3 = 3 := by omega
    refine masked_reaches rfl hrot hmb (by omega) fun a => ?_
    simp only [Insn.turnedDoubleword?, hxo]
    rfl

theorem rotateByRegister_reaches (hI : I.Integral) (hlayout : env.layout = env.arch)
    (harch : env.arch = .ppc64) {e : Expr} {s b : BitVec 64}
    (he : ∀ c' : Point M, c'.Knows I (· = c.state) e ⟨.i64, s⟩)
    (hb : b.toNat = (c.state.operand env.arch I.order w.rb).toNat) (hxo : w.xo4 = 8 ∨ w.xo4 = 9) :
    Reaches env I c (rotateByRegister w e) fun r c' =>
      c'.state = c.state ∧ r.Fits I c' (· = c.state) w s b := by
  have hmb := w.mb6_lt
  have hhigh : w.xo3 = 4 := by
    have heq := w.xo3_eq
    omega
  obtain ⟨y, hy, hamount⟩ := Point.knows_amount (m := 63) hI.toBitwise harch c.state w.rb
    (show 6 ≤ 64 by decide) rfl
  obtain ⟨k, hk, hbyte⟩ := (hamount c).nearByte (v := .w64) hI.toBitwise hy (by omega)
  rw [← hb] at hk
  unfold rotateByRegister
  refine .give (exec_getGpr hlayout w.rb_lt) (.bind hbyte rfl ?_)
  intro amount c₁ _ hquiet hknown
  have hrot := Point.Knows.rotate (v := .w64) hI.toModular (he c₁) hknown
    (show k.toNat < 64 by omega)
  rw [hk] at hrot
  dsimp only
  split
  next hxo =>
    refine masked_reaches hquiet.state_eq hrot hmb (by decide) fun a => ?_
    simp only [Insn.turnedDoubleword?, hhigh, hxo]
    rfl
  next hxo =>
    refine masked_reaches hquiet.state_eq hrot (by decide) hmb fun a => ?_
    simp only [Insn.turnedDoubleword?, hhigh, hxo]
    rfl
  next height hnine => exact (hxo.elim height hnine).elim

theorem exists_turnedDoubleword {n : Nat} (hform : w.xo3 ≤ 3 ∨ w.xo4 = 8 ∨ w.xo4 = 9)
    (s b a : BitVec n) : ∃ out, w.turnedDoubleword? s b a = some out := by
  unfold Insn.turnedDoubleword?
  dsimp only
  split
  case h_5 hzero hone htwo hthree =>
    have hne : w.xo3 ≠ 0 ∧ w.xo3 ≠ 1 ∧ w.xo3 ≠ 2 ∧ w.xo3 ≠ 3 := ⟨hzero, hone, htwo, hthree⟩
    split
    case h_3 height hnine => exact ((hform.resolve_left (by omega)).elim height hnine).elim
    all_goals exact ⟨_, rfl⟩
  all_goals exact ⟨_, rfl⟩

theorem rotateDoubleword_reaches (hI : I.Integral) (hlayout : env.layout = env.arch)
    (harch : env.arch = .ppc64) (hform : w.xo3 ≤ 3 ∨ w.xo4 = 8 ∨ w.xo4 = 9) :
    ∃ out, w.turnedDoubleword? (c.state.operand env.arch I.order w.rs)
        (c.state.operand env.arch I.order w.rb) (c.state.operand env.arch I.order w.ra) = some out ∧
      Reaches env I c (rotateDoubleword w) fun _ c' =>
        c'.state = c.state.after env.arch I.order w.ra out := by
  obtain ⟨out, hout⟩ := exists_turnedDoubleword hform (c.state.operand env.arch I.order w.rs)
    (c.state.operand env.arch I.order w.rb) (c.state.operand env.arch I.order w.ra)
  refine ⟨out, hout, ?_⟩
  obtain ⟨env, rfl⟩ := Env.exists_wide harch
  have hs : ∀ c' : Point M, c'.Knows I (· = c.state) (.gpr .ppc64 w.rs) _ := fun c' =>
    Point.knows_gpr .ppc64 w.rs
  unfold rotateDoubleword
  refine .give (exec_needMode64 rfl) (.give (exec_getGpr hlayout w.rd_lt) ?_)
  extract_lets masked
  -- All forms leave a value and its mask, and go on alike from there.
  have hmasked : ∀ (r : MaskedRotate) (c' : Point M), c'.state = c.state →
      r.Fits I c' (· = c.state) w (c.state.operand .ppc64 I.order w.rs)
        (c.state.operand .ppc64 I.order w.rb) → Reaches env.wide I c' (masked r) fun _ c'' =>
          c''.state = c.state.after .ppc64 I.order w.ra out := by
    rintro ⟨value, mask, insert⟩ c₁ hstate ⟨x, hvalue, hresult⟩
    obtain rfl := Option.some.inj (hout.symm.trans (hresult _))
    refine .bind hvalue hstate ?_
    intro rot c₂ _ hquiet hrot
    have hstate := hquiet.state_eq.trans hstate
    have hmasked : ∀ {S}, c₂.Knows I S _ _ :=
      Point.Knows.and (w := .w64) hrot (.const (.u64 mask)) hI.toBitwise
    cases insert with
    | true =>
        have hkept : c₂.Knows I (· = c.state) _ _ :=
          Point.Knows.and (w := .w64) (Point.knows_gpr .ppc64 w.ra) (.const (.u64 (~~~mask)))
            hI.toBitwise
        exact .give (exec_getGpr hlayout w.ra_lt) (Logic.finish_reaches hI hlayout
          (Point.Knows.or (w := .w64) hmasked hkept hI.toBitwise) hstate hstate)
    | false =>
        have hmasked : ∀ {S}, c₂.Knows I S _ ⟨.i64, underMask mask x 0⟩ :=
          hmasked.congr (congrArg (Value.mk .i64) (underMask_zero mask x).symm)
        exact Logic.finish_reaches (S := fun _ => True) hI hlayout hmasked trivial hstate
  split
  next hfixed =>
    refine .seq (rotateFixed_reaches (b := c.state.operand .ppc64 I.order w.rb) hI.toBitwise (hs c)
      hfixed) ?_
    intro r c₁ _ ⟨hstate, hfits⟩
    exact hmasked r c₁ hstate hfits
  next hregister =>
    refine .seq (rotateByRegister_reaches hI hlayout rfl hs rfl (hform.resolve_left hregister)) ?_
    intro r c₁ _ ⟨hstate, hfits⟩
    exact hmasked r c₁ hstate hfits

end Rotate

end PowerLift
