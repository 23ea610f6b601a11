import PowerLift.Proofs.Rotations

/-!
# Shifts

Shifts take their amount from a register, modulo twice the width, or from the word itself. The
algebraic ones write the carry.
-/

namespace PowerLift

open Point (Knows Next Before Quiet)
open PowerLift.Expr (un bin)

variable {M : Type} {I : Interp M} {env : Env} {c : Point M} {w : Insn}

namespace Insn

/-- What a shift computes of its source and of the register that may hold the amount. Words are
widened. -/
def shifted? (w : Insn) {n : Nat} (s b : BitVec n) : Option (Computed n) :=
  let low := s.setWidth 32
  let logical (x : BitVec n) : Option (Computed n) := some { result := x, record := w.record }
  let algebraic (x : BitVec n) (carry : Bool) : Option (Computed n) :=
    some { result := x, carry := some carry, record := w.record }
  match w.xo10 with
  | 24 => logical ((low <<< (b.toNat % 64)).setWidth n)
  | 536 => logical ((low >>> (b.toNat % 64)).setWidth n)
  | 792 => algebraic ((low.sshiftRight (b.toNat % 64)).signExtend n) (dropsOnes low (b.toNat % 64))
  | 824 => algebraic ((low.sshiftRight w.sh5).signExtend n) (dropsOnes low w.sh5)
  | 27 => logical (s <<< (b.toNat % 128))
  | 539 => logical (s >>> (b.toNat % 128))
  | 794 => algebraic (s.sshiftRight (b.toNat % 128)) (dropsOnes s (b.toNat % 128))
  | xo => match xo / 2 with
      | 413 => algebraic (s.sshiftRight w.sh6) (dropsOnes s w.sh6)
      | 445 => logical (low.signExtend n <<< w.sh6)
      | _ => none

end Insn

namespace Rotate

variable {σ : GuestState} {s : Expr} {line : String}

/-- A shifted value is held, and what was lost goes to the carry. -/
theorem holdShifted (hI : I.Integral) (hlayout : env.layout = env.arch) {v : Word} {rule : FlagRule}
    {e l r zero : Expr} {x : BitVec v.ty.bits} {p : Bool} (hstate : c.state = σ)
    (he : ∀ {S}, c.Knows I S e ⟨v.ty, x⟩)
    (hcarry : ∀ res c' [Next I c c'],
      FlagRule.Holds I c' (fun _ => True) (rule.carry v.ty res l r zero) p)
    {f : Expr → Lift Unit} {Q : Unit → Point M → Prop}
    (hf : ∀ res c' [Next I c c'], (∀ {S}, c'.Knows I S res ⟨v.ty, x⟩) →
      c'.state = σ.withFlags env.arch (some p) none → Reaches env I c' (f res) Q) :
    Reaches env I c (Lift.bind e >>= fun res => Lift.setCarry rule res l r zero >>= fun _ => f res)
      Q := by
  subst hstate
  refine .bind (S := fun _ => True) he trivial ?_
  intro res c₁ _ hquiet hres
  refine .setCarry hI.toBitwise hlayout hres (hcarry res c₁) trivial ?_
  intro c₂ _ hstate
  rw [hquiet.state_eq] at hstate
  exact @hf res c₂ ⟨Before.leads⟩ hres.up hstate

/-! ## Words -/

section

variable {x : BitVec env.arch.word.ty.bits} {y : BitVec 32}
  (hI : I.Integral) (hlayout : env.layout = env.arch) (hstate : c.state = σ)
  (hs : ∀ {S}, c.Knows I S s ⟨env.arch.word.ty, x⟩)

section

variable (hamount : ∀ c : Point M,
  c.Knows I (· = σ) (bin .and32 (env.low32 (.gpr env.arch w.rb)) (.u32 63)) ⟨.i32, y⟩)

include hI hlayout hstate hs hamount

theorem shiftWord_reaches (left : Bool) :
    Reaches env I c (do
      Lift.listed line
      let s ← Lift.low32 s
      let amount ← Lift.bind (bin .and32 (← Lift.low32 (← Lift.getGpr w.rb)) (.u32 63))
      let shifted := bin (if left then .shl32 else .shr32) s (un (.cast .low32to8) amount)
      let res := Expr.ite (bin (.cmpLT .w32 .unsigned) amount (.u32 32)) shifted (.u32 0)
      Logic.finish w (← Lift.widen res false)) fun _ c' =>
        c'.state = σ.after env.arch I.order w.ra
          { result :=
              (if left then x.setWidth 32 <<< y.toNat else x.setWidth 32 >>> y.toNat).setWidth _
            record := w.record } := by
  refine .listed ?_
  intro c₁ _ hquiet
  have hlow : ∀ {S}, c₁.Knows I S (env.low32 s) _ := hs.up.low32 hI.toBitwise
  have hstate := hquiet.state_eq.trans hstate
  refine .give rfl (.give (exec_getGpr hlayout w.rb_lt) (.give rfl (.bind (hamount c₁) hstate ?_)))
  intro amount c₂ _ hquiet' hknown
  have hshifted : ∀ {S}, c₂.Knows I S _ ⟨.i32, _⟩ := Point.Knows.shiftOrZero (v := .w32) hI left
    hlow.up hknown (hknown.lowByte (v := .w32) hI.toBitwise) (.const (.u32 32)) (.const (.u32 0))
  exact .give (exec_widened (hshifted (S := fun _ => True)) false)
    (Logic.finish_reaches (S := fun _ => True) hI hlayout (hshifted.widened hI env.arch false)
      trivial (hquiet'.state_eq.trans hstate))

theorem shiftWordAlgebraic_reaches :
    Reaches env I c (do
      Lift.listed line
      let s ← Lift.bind (← Lift.low32 s)
      let amount ← Lift.bind (bin .and32 (← Lift.low32 (← Lift.getGpr w.rb)) (.u32 63))
      let res ← Lift.bind (bin .sar32 s (clamped .w32 amount))
      Lift.setCarry .sraw res s amount (.u32 0)
      Logic.finish w (← Lift.widen res true)) fun _ c' =>
        c'.state = σ.after env.arch I.order w.ra
          { result := ((x.setWidth 32).sshiftRight y.toNat).signExtend _
            carry := some (dropsOnes (x.setWidth 32) y.toNat), record := w.record } := by
  refine .listed ?_
  intro c₁ _ hquiet
  refine .give rfl (.bind (S := fun _ => True) (hs.up.low32 hI.toBitwise) trivial ?_)
  intro l c₂ _ hquiet' hl
  have hstate := hquiet'.state_eq.trans (hquiet.state_eq.trans hstate)
  refine .give (exec_getGpr hlayout w.rb_lt) (.give rfl (.bind (hamount c₂) hstate ?_))
  intro amount c₃ _ hquiet'' hknown
  refine holdShifted (v := .w32) (p := dropsOnes (x.setWidth 32) y.toNat) hI hlayout
    (hquiet''.state_eq.trans hstate) (Point.Knows.sarClamped (v := .w32) hI hl.up hknown) ?_ ?_
  · intro res c' _
    exact FlagRule.sra_carry (v := .w32) hI hl.up hknown.up
  · intro res c' _ hres hstate
    exact .give (exec_widened (hres (S := fun _ => True)) true)
      (Logic.finish_reaches (S := fun _ => True) hI hlayout (hres.widened hI env.arch true) trivial
        hstate)

end

include hI hlayout hstate hs

theorem shiftWordFixed_reaches :
    Reaches env I c (do
      Lift.listed line
      let s ← Lift.bind (← Lift.low32 s)
      let res ← Lift.bind (bin .sar32 s (.u8 (.ofNat 8 w.sh5)))
      Lift.setCarry .srawi res s (.u32 (.ofNat 32 w.sh5)) (.u32 0)
      Logic.finish w (← Lift.widen res true)) fun _ c' =>
        c'.state = σ.after env.arch I.order w.ra
          { result := ((x.setWidth 32).sshiftRight w.sh5).signExtend _
            carry := some (dropsOnes (x.setWidth 32) w.sh5), record := w.record } := by
  have hsh : w.sh5 < 32 := w.rb_lt
  refine .listed ?_
  intro c₁ _ hquiet
  refine .give rfl (.bind (S := fun _ => True) (hs.up.low32 hI.toBitwise) trivial ?_)
  intro l c₂ _ hquiet' hl
  refine holdShifted (v := .w32) (p := dropsOnes (x.setWidth 32) w.sh5) hI hlayout
    (hquiet'.state_eq.trans (hquiet.state_eq.trans hstate))
    (Point.Knows.sarFixed (v := .w32) hl hsh hI) ?_ ?_
  · intro res c' _
    exact FlagRule.srai_carry (v := .w32) hI hl.up (.const (.u32 (.ofNat 32 w.sh5)))
      (Nat.mod_eq_of_lt (show w.sh5 < 2 ^ 32 by omega)) hsh
  · intro res c' _ hres hstate
    exact .give (exec_widened (hres (S := fun _ => True)) true)
      (Logic.finish_reaches (S := fun _ => True) hI hlayout (hres.widened hI env.arch true) trivial
        hstate)

end

/-! ## Doublewords -/

section

variable {x y : BitVec 64} (hI : I.Integral) (hlayout : env.layout = .ppc64) (hstate : c.state = σ)
  (hs : ∀ {S}, c.Knows I S s ⟨.i64, x⟩)

section

variable (hamount : ∀ c : Point M,
  c.Knows I (· = σ) (bin .and64 (.gpr .ppc64 w.rb) (.u64 127)) ⟨.i64, y⟩)

include hI hlayout hstate hs hamount

theorem shiftDoubleword_reaches {what : String} (left : Bool) :
    Reaches env.wide I c (do
      Lift.needMode64 w what
      Lift.listed line
      let amount ← Lift.bind (bin .and64 (← Lift.getGpr w.rb) (.u64 127))
      let shifted := bin (if left then .shl64 else .shr64) s (un (.cast .low64to8) amount)
      Logic.finish w (.ite (bin (.cmpLT .w64 .unsigned) amount (.u64 64)) shifted (.u64 0)))
      fun _ c' => c'.state = σ.after .ppc64 I.order w.ra
          { result := if left then x <<< y.toNat else x >>> y.toNat, record := w.record } := by
  refine .give (exec_needMode64 rfl) (.listed ?_)
  intro c₁ _ hquiet
  have hstate := hquiet.state_eq.trans hstate
  refine .give (exec_getGpr hlayout w.rb_lt) (.bind (hamount c₁) hstate ?_)
  intro amount c₂ _ hquiet' hknown
  have hshifted : ∀ {S}, c₂.Knows I S _ ⟨.i64, _⟩ := Point.Knows.shiftOrZero (v := .w64) hI left
    hs.up hknown (hknown.lowByte (v := .w64) hI.toBitwise) (.const (.u64 64)) (.const (.u64 0))
  exact Logic.finish_reaches (S := fun _ => True) hI hlayout hshifted trivial
    (hquiet'.state_eq.trans hstate)

theorem shiftDoublewordAlgebraic_reaches {what : String} :
    Reaches env.wide I c (do
      Lift.needMode64 w what
      Lift.listed line
      let amount ← Lift.bind (bin .and64 (← Lift.getGpr w.rb) (.u64 127))
      let res ← Lift.bind (bin .sar64 s (clamped .w64 amount))
      Lift.setCarry .srad res s amount (.u64 0)
      Logic.finish w res) fun _ c' =>
        c'.state = σ.after .ppc64 I.order w.ra
          { result := x.sshiftRight y.toNat
            carry := some (dropsOnes x y.toNat), record := w.record } := by
  refine .give (exec_needMode64 rfl) (.listed ?_)
  intro c₁ _ hquiet
  have hstate := hquiet.state_eq.trans hstate
  refine .give (exec_getGpr hlayout w.rb_lt) (.bind (hamount c₁) hstate ?_)
  intro amount c₂ _ hquiet' hknown
  refine holdShifted (v := .w64) (p := dropsOnes x y.toNat) hI hlayout
    (hquiet'.state_eq.trans hstate) (Point.Knows.sarClamped (v := .w64) hI hs.up hknown) ?_ ?_
  · intro res c' _
    exact FlagRule.sra_carry (v := .w64) hI hs.up hknown.up
  · intro res c' _ hres hstate
    exact Logic.finish_reaches (S := fun _ => True) hI hlayout hres trivial hstate

end

include hI hlayout hstate hs

theorem shiftFixedAlgebraic_reaches (hxo : w.xo10 / 2 = 413) :
    Reaches env.wide I c (shiftFixed w s) fun _ c' =>
      c'.state = σ.after .ppc64 I.order w.ra
        { result := x.sshiftRight w.sh6
          carry := some (dropsOnes x w.sh6)
          record := w.record } := by
  have hsh := w.sh6_lt
  have hlayout : env.wide.layout = env.wide.arch := hlayout
  unfold shiftFixed
  refine .give (exec_needMode64 rfl) ?_
  extract_lets amount operands put
  rw [Nat.shiftRight_eq_div_pow, Nat.pow_one, if_pos hxo]
  refine .listed ?_
  intro c₁ _ hquiet
  refine holdShifted (v := .w64) (p := dropsOnes x w.sh6) hI hlayout
    (hquiet.state_eq.trans hstate) (Point.Knows.sarFixed (v := .w64) hs.up hsh hI) ?_ ?_
  · intro res c' _
    exact FlagRule.srai_carry (v := .w64) hI hs.up (.const (.u64 (.ofNat 64 w.sh6)))
      (Nat.mod_eq_of_lt (show w.sh6 < 2 ^ 64 by omega)) hsh
  · intro res c' _ hres hstate
    exact .ret (.finish hI hlayout w.ra_lt hres
      { result := x.sshiftRight w.sh6, carry := some (dropsOnes x w.sh6), record := w.record }
      hstate rfl)

theorem extendShift_reaches (hxo : w.xo10 / 2 = 445) :
    Reaches env.wide I c (shiftFixed w s) fun _ c' =>
      c'.state = σ.after .ppc64 I.order w.ra
        { result := (x.setWidth 32).signExtend 64 <<< w.sh6, record := w.record } := by
  have hsh := w.sh6_lt
  have hlayout : env.wide.layout = env.wide.arch := hlayout
  unfold shiftFixed
  refine .give (exec_needMode64 rfl) ?_
  extract_lets amount operands put
  rw [Nat.shiftRight_eq_div_pow, Nat.pow_one, if_neg (by omega)]
  refine .listed ?_
  intro c₁ _ hquiet
  have hword : ∀ {S}, c₁.Knows I S _ ⟨.i64, (x.setWidth 32).signExtend 64⟩ :=
    (hs.up.un rfl (hI.cast .low64to32 rfl .i64 rfl x)).un rfl (hI.sext32to64 _)
  refine .bind (S := fun _ => True) (Point.Knows.shlFixed (v := .w64) hword hsh hI.toBitwise)
    trivial ?_
  intro res c₂ _ hquiet' hres
  exact .finish hI hlayout w.ra_lt hres
    { result := (x.setWidth 32).signExtend 64 <<< w.sh6, record := w.record }
    (hquiet'.state_eq.trans (hquiet.state_eq.trans hstate)) rfl

end

/-! ## All shifts -/

theorem wordShift_reaches (hI : I.Integral) (hlayout : env.layout = env.arch)
    (hxo : w.xo10 ∈ [24, 536, 792, 824]) :
    ∃ out, w.shifted? (c.state.operand env.arch I.order w.rs)
        (c.state.operand env.arch I.order w.rb) = some out ∧
      Reaches env I c (shift w) fun _ c' =>
        c'.state = c.state.after env.arch I.order w.ra out := by
  obtain ⟨y, hy, hamount⟩ := Point.knows_lowAmount (m := 63) hI.toBitwise env c.state w.rb
    (show 6 ≤ 32 by decide) rfl
  change y.toNat = _ % 64 at hy
  simp only [List.mem_cons, List.not_mem_nil, or_false] at hxo
  rcases hxo with hxo | hxo | hxo | hxo
  all_goals
    simp only [Insn.shifted?, hxo, ← hy]
    refine ⟨_, rfl, ?_⟩
    unfold shift
    simp only [hxo]
    refine .hold hlayout w.rd_lt ?_
    intro s c₁ _ hquiet hs
  · exact shiftWord_reaches hI hlayout hquiet.state_eq hs hamount true
  · exact shiftWord_reaches hI hlayout hquiet.state_eq hs hamount false
  · exact shiftWordAlgebraic_reaches hI hlayout hquiet.state_eq hs hamount
  · exact shiftWordFixed_reaches hI hlayout hquiet.state_eq hs

theorem doublewordShift_reaches (hI : I.Integral) (hlayout : env.layout = env.arch)
    (harch : env.arch = .ppc64) (hxo : w.xo10 ∈ [27, 539, 794] ∨ w.xo10 / 2 ∈ [413, 445]) :
    ∃ out, w.shifted? (c.state.operand env.arch I.order w.rs)
        (c.state.operand env.arch I.order w.rb) = some out ∧
      Reaches env I c (shift w) fun _ c' =>
        c'.state = c.state.after env.arch I.order w.ra out := by
  obtain ⟨env, rfl⟩ := Env.exists_wide harch
  obtain ⟨y, hy, hamount⟩ := Point.knows_amount (m := 127) hI.toBitwise harch c.state w.rb
    (show 7 ≤ 64 by decide) rfl
  change y.toNat = _ % 128 at hy
  simp only [List.mem_cons, List.not_mem_nil, or_false] at hxo
  -- One bit of a fixed amount is part of the ten-bit opcode.
  have hcases : (w.xo10 = 27 ∨ w.xo10 = 539 ∨ w.xo10 = 794) ∨
      (w.xo10 = 826 ∨ w.xo10 = 827 ∨ w.xo10 = 890 ∨ w.xo10 = 891) := by omega
  rcases hcases with hxo | hxo
  · rcases hxo with hxo | hxo | hxo
    all_goals
      simp only [Insn.shifted?, hxo, ← hy]
      refine ⟨_, rfl, ?_⟩
      unfold shift
      simp only [hxo]
      refine .hold hlayout w.rd_lt ?_
      intro s c₁ _ hquiet hs
    · exact shiftDoubleword_reaches hI hlayout hquiet.state_eq hs hamount true
    · exact shiftDoubleword_reaches hI hlayout hquiet.state_eq hs hamount false
    · exact shiftDoublewordAlgebraic_reaches hI hlayout hquiet.state_eq hs hamount
  · rcases hxo with hxo | hxo | hxo | hxo
    all_goals
      simp only [Insn.shifted?, hxo]
      refine ⟨_, rfl, ?_⟩
      unfold shift
      simp only [hxo]
      refine .hold hlayout w.rd_lt ?_
      intro s c₁ _ hquiet hs
    · exact shiftFixedAlgebraic_reaches hI hlayout hquiet.state_eq hs (by omega)
    · exact shiftFixedAlgebraic_reaches hI hlayout hquiet.state_eq hs (by omega)
    · exact extendShift_reaches hI hlayout hquiet.state_eq hs (by omega)
    · exact extendShift_reaches hI hlayout hquiet.state_eq hs (by omega)

end Rotate

/-! ## Rotates and shifts -/

/-- The words of rotates and shifts that a guest has. -/
inductive Insn.Turns (g : Guest) (w : Insn) : Prop where
  | word (hopcode : w.opcode ∈ [20, 21, 23])
  | doubleword (hopcode : w.opcode = 30) (harch : g.arch = .ppc64)
      (hform : w.xo3 ≤ 3 ∨ w.xo4 = 8 ∨ w.xo4 = 9)
  | wordShift (hopcode : w.opcode = 31) (hxo : w.xo10 ∈ [24, 536, 792, 824])
  | doublewordShift (hopcode : w.opcode = 31) (harch : g.arch = .ppc64)
      (hxo : w.xo10 ∈ [27, 539, 794] ∨ w.xo10 / 2 = 413)
  | extendShift (hopcode : w.opcode = 31) (harch : g.arch = .ppc64) (hxo : w.xo10 / 2 = 445)
      (hrecent : (Features.resolve g.arch g.info.caps).isa30 = true)

/-- What a rotate or shift computes of its source, of the register that may hold the amount, and of
the old target. -/
def Insn.turned? (w : Insn) (arch : Arch) (s b a : BitVec arch.word.ty.bits) :
    Option (Computed arch.word.ty.bits) :=
  match w.opcode with
  | 20 => some (w.turnedWord arch (s.setWidth 32) w.sh5 a)
  | 21 => some (w.turnedWord arch (s.setWidth 32) w.sh5 0)
  | 23 => some (w.turnedWord arch (s.setWidth 32) (b.toNat % 32) 0)
  | 30 => w.turnedDoubleword? s b a
  | 31 => w.shifted? s b
  | _ => none

namespace Insn.Turns

variable {g : Guest}

theorem route (hw : w.Turns g) :
    ∃ route, Route.find? w = some route ∧ route.family = .rotate ∧
      route.closedGate? g.arch (.resolve g.arch g.info.caps) = none := by
  cases hw with
  | word hopcode =>
      have honly : ∀ opcode ∈ [20, 21, 23],
          Route.ofOpcode opcode = Route.only .rotate [] := by decide
      exact ⟨_, Route.find?_only (honly _ hopcode), rfl, rfl⟩
  | doubleword hopcode harch =>
      exact ⟨_, Route.find?_only (by rw [hopcode]; rfl), rfl, by rw [harch]; rfl⟩
  | wordShift hopcode hxo =>
      obtain ⟨_, hroute⟩ : ∃ pattern, Route.find? w = some ⟨pattern, [], .rotate⟩ :=
        Route.find?_forms hopcode (by decide) hxo
      exact ⟨_, hroute, rfl, rfl⟩
  | doublewordShift hopcode harch hxo =>
      rcases hxo with hxo | hxo
      · obtain ⟨_, hroute⟩ : ∃ pattern, Route.find? w = some ⟨pattern, [], .rotate⟩ :=
          Route.find?_forms hopcode (by decide) hxo
        exact ⟨_, hroute, rfl, rfl⟩
      · have hmem : w.xo10 ∈ [826, 827] := by
          simp only [List.mem_cons, List.not_mem_nil, or_false]
          omega
        obtain ⟨_, hroute⟩ : ∃ pattern, Route.find? w = some ⟨pattern, [.mode64], .rotate⟩ :=
          Route.find?_forms hopcode (by decide) hmem
        exact ⟨_, hroute, rfl, by rw [harch]; rfl⟩
  | extendShift hopcode harch hxo hrecent =>
      have hmem : w.xo10 ∈ [890, 891] := by
        simp only [List.mem_cons, List.not_mem_nil, or_false]
        omega
      obtain ⟨_, hroute⟩ : ∃ pattern, Route.find? w = some ⟨pattern, [.mode64, .isa30], .rotate⟩ :=
        Route.find?_forms hopcode (by decide) hmem
      refine ⟨_, hroute, rfl, ?_⟩
      simp [Route.closedGate?, Gate.isOpen, hrecent, show g.arch.is64 = true from harch ▸ rfl]

theorem lift_reaches (hw : w.Turns g) (hI : I.Integral) (hlayout : env.layout = env.arch)
    (harch : env.arch = g.arch) :
    ∃ out, w.turned? env.arch (c.state.operand env.arch I.order w.rs)
        (c.state.operand env.arch I.order w.rb) (c.state.operand env.arch I.order w.ra) = some out ∧
      Reaches env I c (Rotate.lift w) fun _ c' =>
        c'.state = c.state.after env.arch I.order w.ra out := by
  cases hw with
  | word hopcode =>
      have hreaches := Rotate.rotateWord_reaches (w := w) (c := c) hI hlayout
      simp only [List.mem_cons, List.not_mem_nil, or_false] at hopcode
      rcases hopcode with h | h | h
      all_goals
        simp only [turned?, Rotate.lift, h] at hreaches ⊢
        exact ⟨_, rfl, hreaches⟩
  | doubleword hopcode hwide hform =>
      simp only [turned?, Rotate.lift, hopcode]
      exact Rotate.rotateDoubleword_reaches hI hlayout (harch.trans hwide) hform
  | wordShift hopcode hxo =>
      simp only [turned?, Rotate.lift, hopcode]
      exact Rotate.wordShift_reaches hI hlayout hxo
  | doublewordShift hopcode hwide hxo =>
      simp only [turned?, Rotate.lift, hopcode]
      exact Rotate.doublewordShift_reaches hI hlayout (harch.trans hwide)
        (hxo.imp_right fun h => by simp [h])
  | extendShift hopcode hwide hxo =>
      simp only [turned?, Rotate.lift, hopcode]
      exact Rotate.doublewordShift_reaches hI hlayout (harch.trans hwide) (.inr (by simp [hxo]))

theorem computesInto (hw : w.Turns g) (hI : I.Integral) :
    g.ComputesInto w w.ra I fun arch σ out =>
      w.turned? arch (σ.operand arch I.order w.rs) (σ.operand arch I.order w.rb)
        (σ.operand arch I.order w.ra) = some out := by
  obtain ⟨route, hroute, hfamily, hgates⟩ := hw.route
  refine Guest.computesInto hroute hgates w.ra_lt (fun order arch σ out =>
    w.turned? arch (σ.operand arch order w.rs) (σ.operand arch order w.rb)
      (σ.operand arch order w.ra) = some out) ?_ hI
  rw [hfamily]
  intro N J env c hJ hlayout harch
  exact hw.lift_reaches hJ hlayout harch

end Insn.Turns

/-- A rotate or shift leaves in its target the source turned by the amount, under the mask of the
form. Masks run from one bit to another, around the end where the first lies behind the last. The
algebraic right shifts alone write the carry, and tell in it that a negative number lost ones.
Condition field 0, on demand, has the sign of the result. Nothing else in the guest state changes.
Rotations by a fixed amount and by a computed amount below the width have the same value. -/
theorem Guest.rotates_and_shifts (g : Guest) (hw : w.Turns g) (hI : I.Integral) :
    (g.ComputesInto w w.ra I fun arch σ out =>
      w.turned? arch (σ.operand arch I.order w.rs) (σ.operand arch I.order w.rb)
        (σ.operand arch I.order w.ra) = some out) ∧
    (∀ {n mb me i : Nat}, mb < n → me < n → i < n → ((Bits.ringMask n mb me).getMsbD i = true ↔
      if mb ≤ me then mb ≤ i ∧ i ≤ me else mb ≤ i ∨ i ≤ me)) ∧
    ∀ {c : Point M} {S : GuestState → Prop} {v : Word} {e amount : Expr} {x : BitVec v.ty.bits}
      {k : BitVec 8}, c.Knows I S e ⟨v.ty, x⟩ → c.Knows I S amount ⟨.i8, k⟩ → k.toNat < v.bits →
      c.Knows I S (Rotate.rotate v e amount) ⟨v.ty, x.rotateLeft k.toNat⟩ ∧
        c.Knows I S (Rotate.rotateBy v e k.toNat) ⟨v.ty, x.rotateLeft k.toNat⟩ := by
  refine ⟨hw.computesInto hI, Bits.ringMask_getMsbD, ?_⟩
  intro c S v e amount x k he hamount hk
  exact ⟨.rotate hI.toModular he hamount hk, .rotateBy hI.toBitwise he k.toNat⟩

/-- A machine in which general register 3 is all ones and register 4 has the ends of its lower word
set. -/
def turning : Machine Unit :=
  .start () fun o =>
    if 24 ≤ o ∧ o < 32 then 0xFF else if o = 36 then 0x80 else if o = 39 then 1 else 0

/-- The code of `rlwimi. r3,r4,4,28,3` on a 64-bit processor. The mask wraps around, and takes a
part of both copies of the rotated word. -/
theorem Guest.rotates_and_shifts_wrapping :
    ∃ ss m', Guest.Codes { arch := .ppc64 } ⟨0x50832707⟩ ⟨4, .continue, none⟩ ss ∧
      runAll (.integral .big) #[] ss turning = .behind m' ∧
      GuestState.Shows .ppc64 .big 3 { result := (0x000000180FFFFFF8 : BitVec 64), record := true }
        turning.state m'.state := by
  let g : Guest := { arch := .ppc64 }
  let code : ByteArray := ⟨#[0x50, 0x83, 0x27, 0x07]⟩
  obtain ⟨hcomputes, -⟩ := Guest.rotates_and_shifts g (w := ⟨0x50832707⟩) (.word (by decide))
    (Interp.integral_integral .big)
  obtain ⟨ss, out, m', hcodes, hout, hm', hshows⟩ :=
    hcomputes.exists_run (by decide) code (by decide) (by decide) turning
  have hout' : Insn.turned? ⟨0x50832707⟩ .ppc64 (turning.state.operand .ppc64 .big 4)
      (turning.state.operand .ppc64 .big 4) (turning.state.operand .ppc64 .big 3) =
      some { result := (0x000000180FFFFFF8 : BitVec 64), record := true } := by
    decide +kernel
  obtain rfl := Option.some.inj (hout.symm.trans hout')
  exact ⟨ss, m', hcodes, hm', hshows⟩

end PowerLift
