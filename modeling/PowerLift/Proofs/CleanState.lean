import PowerLift.Proofs.Formation
import PowerLift.Proofs.Meaning
import PowerLift.Proofs.WellFormed

/-!
# Clean states

In a clean state every flag byte has no bits but those that it uses. Lifted code keeps states clean,
whatever floating-point, decimal and vector operators compute: a flag byte is written with bits that
the code has masked, or that come from flags, truth values and orderings. Instructions other than
those that combine single condition bits write both bytes of a condition field or neither.
-/

namespace PowerLift

variable {M : Type}

/-! ## Bits under a mask -/

/-- The bits that are set are among those of a mask. -/
def Masked {n : Nat} (x : BitVec n) (mask : Nat) : Prop :=
  ∀ k, x.getLsbD k = true → mask.testBit k = true

namespace Masked

variable {n : Nat} {x y : BitVec n} {mask mask' : Nat}

theorem weaken (h : Masked x mask) (hle : mask &&& mask' = mask) : Masked x mask' := by
  intro k hk
  have hbit := h k hk
  rw [← hle, Nat.testBit_and, Bool.and_eq_true] at hbit
  exact hbit.2

theorem refl (x : BitVec n) : Masked x x.toNat := fun _ hk => hk

theorem andLeft (h : Masked x mask) (y : BitVec n) : Masked (x &&& y) mask := by
  intro k hk
  rw [BitVec.getLsbD_and, Bool.and_eq_true] at hk
  exact h k hk.1

theorem andRight (x : BitVec n) (h : Masked y mask) : Masked (x &&& y) mask := by
  rw [BitVec.and_comm]
  exact h.andLeft x

theorem or (hx : Masked x mask) (hy : Masked y mask') : Masked (x ||| y) (mask ||| mask') := by
  intro k hk
  rw [BitVec.getLsbD_or, Bool.or_eq_true] at hk
  rw [Nat.testBit_or, Bool.or_eq_true]
  exact hk.imp (hx k) (hy k)

theorem shiftLeft (h : Masked x mask) (i : Nat) : Masked (x <<< i) (mask <<< i) := by
  intro k hk
  simp only [BitVec.getLsbD_shiftLeft, Bool.and_eq_true, Bool.not_eq_true', decide_eq_false_iff_not,
    Nat.not_lt] at hk
  rw [Nat.testBit_shiftLeft, Bool.and_eq_true, decide_eq_true_eq]
  exact ⟨hk.1.2, h _ hk.2⟩

theorem setWidth (h : Masked x mask) (i : Nat) : Masked (x.setWidth i) mask := by
  intro k hk
  rw [BitVec.getLsbD_setWidth, Bool.and_eq_true] at hk
  exact h k hk.2

theorem toNat_le (h : Masked x mask) : x.toNat ≤ mask := by
  have hand : x.toNat &&& mask = x.toNat := by
    refine Nat.eq_of_testBit_eq fun k => ?_
    rw [Nat.testBit_and]
    cases hk : x.toNat.testBit k with
    | false => rfl
    | true => exact h k hk
  exact hand ▸ Nat.and_le_right

/-- A bound by a power of two leaves the bits below. -/
theorem of_toNat_lt {i : Nat} (h : x.toNat < 2 ^ i) : Masked x (2 ^ i - 1) := by
  intro k hk
  rw [Nat.testBit_two_pow_sub_one, decide_eq_true_eq]
  by_contra hge
  have hpow : 2 ^ i ≤ 2 ^ k := Nat.pow_le_pow_right (by decide) (by omega)
  have hfalse : x.getLsbD k = false := Nat.testBit_lt_two_pow (by omega)
  rw [hfalse] at hk
  contradiction

theorem toNat_lt {i : Nat} (h : Masked x (2 ^ i - 1)) : x.toNat < 2 ^ i := by
  have hle := h.toNat_le
  have hpos := Nat.two_pow_pos i
  omega

/-- A shift by at most `mask` bits. -/
theorem shiftLeft_le {i j : Nat} (h : Masked x (2 ^ i - 1)) (hj : j ≤ mask) :
    Masked (x <<< j) (2 ^ (i + mask) - 1) := by
  refine of_toNat_lt ?_
  have hx := h.toNat_lt
  have hpow : 2 ^ j ≤ 2 ^ mask := Nat.pow_le_pow_right (by decide) hj
  calc (x <<< j).toNat ≤ x.toNat * 2 ^ j := by
        rw [BitVec.toNat_shiftLeft, Nat.shiftLeft_eq]
        exact Nat.mod_le _ _
    _ < 2 ^ i * 2 ^ j := Nat.mul_lt_mul_of_pos_right hx (Nat.two_pow_pos j)
    _ ≤ 2 ^ i * 2 ^ mask := Nat.mul_le_mul_left _ hpow
    _ = 2 ^ (i + mask) := (Nat.pow_add 2 i mask).symm

theorem shiftRight {i : Nat} (hi : i ≤ n) : Masked (x >>> i) (2 ^ (n - i) - 1) := by
  refine of_toNat_lt ?_
  rw [BitVec.toNat_ushiftRight, Nat.shiftRight_eq_div_pow,
    Nat.div_lt_iff_lt_mul (Nat.two_pow_pos i), ← Nat.pow_add, Nat.sub_add_cancel hi]
  exact x.isLt

end Masked

/-! ## Clean states -/

/-- Every flag byte has no bits but those that it uses. -/
def GuestState.Clean (arch : Arch) (σ : GuestState) : Prop :=
  ∀ (s : Slot) (mask : Nat) (p : Layout.Place), s.flagBits? = some mask →
    Layout.locate arch s = .ok p → Masked (σ p.offset) mask

/-- Flags are bytes, and other than the instruction address. -/
theorem Slot.flag_place {arch : Arch} {s : Slot} {mask : Nat} {p : Layout.Place}
    (hs : s.flagBits? = some mask) (hp : Layout.locate arch s = .ok p) :
    s ≠ .special .cia ∧ p.ty = .i8 := by
  obtain ⟨hcia, hty⟩ := Slot.flag_byte arch hs
  exact ⟨hcia, (Layout.locate_ty hp).trans hty⟩

namespace GuestState.Clean

variable {arch : Arch} {σ σ' : GuestState}

theorem agree (h : σ.Clean arch) (hagree : σ.Agree arch σ') : σ'.Clean arch := by
  intro s mask p hs hp
  obtain ⟨hcia, hty⟩ := Slot.flag_place hs hp
  have hregister : Layout.Register arch .big p := .slot s hcia hp
  have hapart := hregister.apart
  rw [← hagree p.offset]
  · exact h s mask p hs hp
  · have hbytes : p.ty.bytes = 1 := by rw [hty]; rfl
    rcases hapart with hle | hle <;> omega

theorem writeCia (h : σ.Clean arch) (order : ByteOrder) {v : Value} (hv : v.ty = arch.wordTy) :
    (σ.write order (Layout.specialOffset arch .cia) v).Clean arch := by
  refine h.agree fun o ho => ?_
  exact ((GuestState.Agree.refl arch σ).writeCia order hv o ho).symm

/-- A register is written with a value that it accepts. -/
theorem write (h : σ.Clean arch) {host order : ByteOrder} {ss : List Stmt} {e : Expr}
    {p : Layout.Place} (hp : Layout.Accepts arch host ss e p) {v : Value} (hv : v.ty = p.ty)
    (hmasked : ∀ mask, e.Within arch ss mask → Masked v.bits mask) :
    (σ.write order p.offset v).Clean arch := by
  obtain ⟨ty, x⟩ := v
  subst hv
  intro s mask q hs hq
  have hty := (Slot.flag_place hs hq).2
  have hbytes : q.ty.bytes = 1 := by rw [hty]; rfl
  have hold := h s mask q hs hq
  cases hp with
  | half i hp =>
      -- Halves of vectors end before the flags start.
      obtain ⟨hhalf, hle⟩ := Layout.fpr_le hp
      have hregion := (Layout.locate_region hq).1
      have hspecials := Layout.specialBase_le_crBase arch
      have height : p.ty.bytes = 8 := by rw [hhalf]; rfl
      rw [GuestState.write, if_neg]
      · exact hold
      · simp only [height]
        cases s <;> simp only [Slot.flagBits?, reduceCtorEq, Layout.region] at hs hregion <;> omega
  | slot s' hs' hp hflag =>
      by_cases heq : s' = s
      · subst heq
        obtain rfl : p = q := Except.ok.inj (hp.symm.trans hq)
        obtain ⟨offset, ty⟩ := p
        obtain rfl : ty = .i8 := hty
        have hbyte : σ.write order offset ⟨.i8, x⟩ offset = x :=
          (GuestState.write_i8 x offset).trans (if_pos rfl)
        exact hbyte.symm ▸ hmasked mask (hflag mask hs)
      · have hdisjoint := Layout.locate_disjoint hp hq heq
        have hpos := Layout.locate_bytes_pos hp
        rw [GuestState.write, if_neg]
        · exact hold
        · rcases hdisjoint with hle | hle <;> simp only <;> omega

end GuestState.Clean

/-! ## Runs of an instruction -/

/-- A machine that has run `ss` from a clean state: a temporary has no bits but those that its
expression was built to have. -/
structure Machine.Clean (arch : Arch) (types : Array Ty) (ss : List Stmt) (m : Machine M) :
    Prop where
  state : m.state.Clean arch
  typed : m.Typed types ss
  temps : ∀ ss₀ t e mask, ss₀ ++ [.bind t e] <+: ss → e.Within arch ss₀ mask →
    Masked (m.temps t).bits mask

namespace Machine.Clean

variable {arch : Arch} {types : Array Ty} {ss : List Stmt} {m : Machine M} {stmt : Stmt}

theorem start (memory : M) {σ : GuestState} (h : σ.Clean arch) :
    (Machine.start memory σ).Clean arch types [] where
  state := h
  typed := .nil
  temps ss₀ t e mask hss := by simp at hss

/-- A statement that binds nothing. -/
theorem step (h : m.Clean arch types ss) (htarget : stmt.target? = none) (memory : M)
    {σ : GuestState} (hσ : σ.Clean arch) :
    Clean arch types (ss ++ [stmt]) { m with memory, state := σ } where
  state := hσ
  typed := h.typed.step htarget memory σ
  temps ss₀ t e mask hss he := by
    rcases List.prefix_concat_iff.mp hss with heq | hss
    · obtain ⟨-, heq⟩ := List.append_inj' heq rfl
      obtain rfl : Stmt.bind t e = stmt := List.singleton_inj.mp heq
      contradiction
    · exact h.temps ss₀ t e mask hss he

/-- A statement that binds a fresh temporary. -/
theorem bind (h : m.Clean arch types ss) {t : Nat} (htarget : stmt.target? = some t)
    (ht : t ∉ boundBy ss) {v : Value} (hty : types[t]? = some v.ty) (memory : M)
    (hv : ∀ e mask, stmt = .bind t e → e.Within arch ss mask → Masked v.bits mask) :
    Clean arch types (ss ++ [stmt]) ({ m with memory }.bind t v) where
  state := h.state
  typed := Machine.Typed.bind (m := { m with memory }) h.typed htarget hty
  temps ss₀ u e mask hss he := by
    rcases List.prefix_concat_iff.mp hss with heq | hss
    · obtain ⟨hss₀, heq⟩ := List.append_inj' heq rfl
      obtain rfl : Stmt.bind u e = stmt := List.singleton_inj.mp heq
      obtain rfl : u = t := Option.some.inj htarget
      have htemp : ({ m with memory }.bind u v).temps u = v := by simp [Machine.bind]
      rw [htemp]
      exact hv e mask rfl (hss₀ ▸ he)
    · -- The temporaries that were bound before are others.
      have hne : u ≠ t := by
        rintro rfl
        refine ht (List.mem_filterMap.mpr ⟨.bind u e, hss.subset ?_, rfl⟩)
        simp
      have htemp : ({ m with memory }.bind t v).temps u = m.temps u := by simp [Machine.bind, hne]
      rw [htemp]
      exact h.temps ss₀ u e mask hss he

end Machine.Clean

section

variable {I : Interp M} {env : Env} {types : Array Ty} {ss : List Stmt} {m : Machine M}

theorem Expr.HasTy.eval_eq {e : Expr} {τ : Ty} (he : e.HasTy env (scopeOf types ss) τ)
    (hm : m.Typed types ss) : ∃ x, e.eval I m = ⟨τ, x⟩ :=
  Value.exists_eq (he.eval_ty hm)

theorem Expr.HaveTys.single {scope : Nat → Option Ty} {a : Expr} {tys : List Ty}
    (h : HaveTys env scope [a] tys) : ∃ ty, tys = [ty] ∧ a.HasTy env scope ty := by
  match tys, h with
  | [ty], h => exact ⟨ty, rfl, h.1⟩

/-- The codes of orderings. -/
theorem Masked.order {w : Word} {x : BitVec w.ty.bits} (hx : x ∈ [8, 4, 2]) : Masked x 0xE := by
  simp only [List.mem_cons, List.not_mem_nil, or_false] at hx
  rcases hx with rfl | rfl | rfl <;> cases w <;> exact (Masked.refl _).weaken (by decide)

/-- An expression that is built to have the bits of a mask has no others. -/
theorem Expr.Within.eval_masked (hI : I.Bitwise) (hord : I.Orders) {e : Expr} {mask : Nat}
    (h : e.Within env.arch ss mask) (hm : m.Clean env.arch types ss) {τ : Ty}
    (he : e.HasTy env (scopeOf types ss) τ) : ∃ x, e.eval I m = ⟨τ, x⟩ ∧ Masked x mask := by
  induction h generalizing τ with
  | weaken h hle ih =>
      obtain ⟨x, hx, hmasked⟩ := ih hm he
      exact ⟨x, hx, hmasked.weaken hle⟩
  | u8 v =>
      obtain rfl : .i8 = τ := he
      exact ⟨v, rfl, .refl v⟩
  | u32 v =>
      obtain rfl : .i32 = τ := he
      exact ⟨v, rfl, .refl v⟩
  | @flag ss s p mask hs hp =>
      obtain ⟨offset, ty⟩ := p
      obtain rfl : ty = .i8 := (Slot.flag_place hs hp).2
      obtain ⟨rfl, -⟩ := he
      refine ⟨_, rfl, ?_⟩
      rw [GuestState.read_i8]
      exact hm.state s mask _ hs hp
  | @tmp ss ss₀ t e mask hss h ih =>
      obtain ⟨x, hx⟩ := he.eval_eq (I := I) hm.typed
      have hmasked := hm.temps ss₀ t e mask hss h
      rw [show m.temps t = ⟨τ, x⟩ from hx] at hmasked
      exact ⟨x, hx, hmasked⟩
  | andLeft ha ih =>
      obtain ⟨rfl, ha, hb, -⟩ := he
      obtain ⟨x, hx, hmasked⟩ := ih hm ha
      obtain ⟨y, hy⟩ := hb.eval_eq (I := I) hm.typed
      exact ⟨x &&& y, hI.eval_and hx hy, hmasked.andLeft y⟩
  | andRight hb ih =>
      obtain ⟨rfl, ha, hb, -⟩ := he
      obtain ⟨x, hx⟩ := ha.eval_eq (I := I) hm.typed
      obtain ⟨y, hy, hmasked⟩ := ih hm hb
      exact ⟨x &&& y, hI.eval_and hx hy, hmasked.andRight x⟩
  | or ha hb iha ihb =>
      obtain ⟨rfl, ha, hb, -⟩ := he
      obtain ⟨x, hx, hmasked⟩ := iha hm ha
      obtain ⟨y, hy, hmasked'⟩ := ihb hm hb
      exact ⟨x ||| y, hI.eval_or hx hy, hmasked.or hmasked'⟩
  | shl k hk ha ih =>
      obtain ⟨rfl, ha, -⟩ := he
      obtain ⟨x, hx, hmasked⟩ := ih hm ha
      exact ⟨x <<< k.toNat, hI.eval_shl hx rfl hk, hmasked.shiftLeft k.toNat⟩
  | shlUpTo hmask ha hb iha ihb =>
      obtain ⟨rfl, ha, hb, -⟩ := he
      obtain ⟨x, hx, hmasked⟩ := iha hm ha
      obtain ⟨k, hk, hamount⟩ := ihb hm hb
      have hle := hamount.toNat_le
      exact ⟨x <<< k.toNat, hI.eval_shl hx hk (Nat.lt_of_le_of_lt hle hmask),
        hmasked.shiftLeft_le hle⟩
  | @shr ss w a k hk =>
      obtain ⟨rfl, ha, -⟩ := he
      obtain ⟨x, hx⟩ := ha.eval_eq (I := I) hm.typed
      have hbits : w.ty.bits = w.bits := by cases w <;> rfl
      refine ⟨x >>> k.toNat, hI.eval_shr hx rfl hk, ?_⟩
      rw [← hbits] at hk ⊢
      exact .shiftRight (Nat.le_of_lt hk)
  | @order ss w s a b =>
      obtain ⟨rfl, ha, hb, -⟩ := he
      obtain ⟨x, hx⟩ := ha.eval_eq (I := I) hm.typed
      obtain ⟨y, hy⟩ := hb.eval_eq (I := I) hm.typed
      refine ⟨_, ?_, Masked.order (hord w s x y)⟩
      simp only [Expr.bin, Expr.eval, Expr.evalAll, hx, hy]
  | truth hc harg =>
      obtain ⟨rfl, ha⟩ := he
      obtain ⟨ty, hty, ha⟩ := ha.single
      obtain rfl : ty = .i1 := List.singleton_inj.mp (hty.symm.trans harg)
      obtain ⟨x, hx⟩ := ha.eval_eq (I := I) hm.typed
      exact ⟨_, hI.eval_cast hc harg hx, (Masked.of_toNat_lt (i := 1) x.isLt).setWidth _⟩
  | cast hc ha ih =>
      obtain ⟨rfl, ha⟩ := he
      obtain ⟨ty, harg, ha⟩ := ha.single
      obtain ⟨x, hx, hmasked⟩ := ih hm ha
      exact ⟨_, hI.eval_cast hc harg hx, hmasked.setWidth _⟩
  | @ite ss c a b mask ha hb iha ihb =>
      obtain ⟨-, ha, hb⟩ := he
      rw [Expr.eval]
      split
      · exact iha hm ha
      · exact ihb hm hb

end

namespace Flow

variable {arch : Arch} {R R' : Machine M → Prop} {flow flow' : Flow M}

/-- The guest state that a run has come to. -/
def state : Flow M → GuestState
  | .behind m => m.state
  | .left l => l.state

/-- Runs that have left in a clean state, or are behind their statements on a machine of `R`. -/
inductive Clean (arch : Arch) (R : Machine M → Prop) : Flow M → Prop where
  | behind {m : Machine M} (h : R m) : Clean arch R (.behind m)
  | left {l : Left M} (h : l.state.Clean arch) : Clean arch R (.left l)

theorem Clean.andThen {f : Machine M → Flow M} (h : Clean arch R flow)
    (hf : ∀ m, R m → Clean arch R' (f m)) : Clean arch R' (flow.andThen f) := by
  cases h with
  | behind h => exact hf _ h
  | left h => exact .left h

theorem Clean.state_clean (h : Clean arch R flow) (hR : ∀ m, R m → m.state.Clean arch) :
    flow.state.Clean arch := by
  cases h with
  | behind h => exact hR _ h
  | left h => exact h

theorem state_andThen {f : Machine M → Flow M} (h : flow.state.Clean arch)
    (hf : ∀ m : Machine M, m.state.Clean arch → (f m).state.Clean arch) :
    (flow.andThen f).state.Clean arch := by
  cases flow with
  | behind m => exact hf m h
  | left l => exact h

/-- Runs side by side come to states that agree off the instruction address. -/
theorem Related.state_agree {R : Machine M → Machine M → Prop} (h : Related arch R flow flow')
    (hR : ∀ m m', R m m' → m.state.Agree arch m'.state) : flow.state.Agree arch flow'.state := by
  cases h with
  | behind h => exact hR _ _ h
  | left h => exact h.state

end Flow

section

variable {I : Interp M} {env : Env} {types : Array Ty} {ss : List Stmt} {m : Machine M}

/-- One statement. -/
theorem Fits.run_clean (hI : I.Bitwise) (hord : I.Orders) {stmt : Stmt}
    (hfits : Fits env types ss stmt) (hm : m.Clean env.arch types ss) :
    Flow.Clean env.arch (Machine.Clean env.arch types (ss ++ [stmt])) (stmt.run I types m) := by
  -- A load or a call takes the type of its result from the temporary.
  have hresult : ∀ {t : Nat} {τ : Ty}, types[t]? = some τ →
      types[t]? = some (types[t]?.getD default) := by
    intro t τ ht
    rw [ht, Option.getD_some]
  cases hfits with
  | mark len hss => exact .behind (hm.step rfl m.memory hm.state)
  | bind t e τ he hty ht =>
      have hv : (e.eval I m).ty = τ := he.eval_ty hm.typed
      refine .behind (hm.bind rfl ht (hv ▸ hty) m.memory ?_)
      intro e' mask heq hwithin
      obtain ⟨-, rfl⟩ := Stmt.bind.inj heq
      obtain ⟨x, hx, hmasked⟩ := hwithin.eval_masked hI hord hm he
      rwa [hx]
  | put p e hp he =>
      refine .behind (hm.step rfl m.memory (hm.state.write hp (he.eval_ty hm.typed) ?_))
      intro mask hwithin
      obtain ⟨x, hx, hmasked⟩ := hwithin.eval_masked hI hord hm he
      rwa [hx]
  | store a e τ ha he hτ => exact .behind (hm.step rfl _ hm.state)
  | exit guard kind target hguard hfault =>
      have hvalue := env.ty_address_value (env.cutAddress target)
      rw [Stmt.run]
      split
      · exact .left (hm.state.writeCia I.order hvalue)
      · exact .behind (hm.step rfl m.memory hm.state)
  | loadLinked t a τ ha hty hτ ht => exact .behind (hm.bind rfl ht (hresult hty) _ (by simp))
  | storeConditional t a e τ ha he hτ hty ht => exact .behind (hm.bind rfl ht hty _ (by simp))
  | fence => exact .behind (hm.step rfl _ hm.state)
  | timeBase t hty ht => exact .behind (hm.bind rfl ht (hresult hty) _ (by simp))
  | hint a len next ha hnext => exact .behind (hm.step rfl _ hm.state)

/-- The code of an instruction. -/
theorem Trail.run_clean (hI : I.Bitwise) (hord : I.Orders) (hcode : Trail (Fits env types) ss)
    (hm : m.Clean env.arch types []) :
    Flow.Clean env.arch (Machine.Clean env.arch types ss) (runAll I types ss m) := by
  -- Along the code: the state is clean, and temporaries keep to the bits they were built to have.
  induction hcode with
  | nil => exact .behind hm
  | @snoc ss stmt _ hfits ih =>
      rw [runAll_append]
      refine ih.andThen fun m hm => ?_
      rw [runAll_single]
      exact hfits.run_clean hI hord hm

end

/-! ## Runs of a block -/

section

variable {I : Interp M} {P : Placement} {σ : GuestState} {memory : M}

/-- A write of the instruction address behind the code of an instruction. -/
theorem Stage.Sound.run_putCia (hI : I.Bitwise) (hord : I.Orders) {s : Stage} {e : Expr}
    (hsound : s.Sound P []) (he : e.HasTy P.env s.scope P.gprTy) (hσ : σ.Clean P.env.arch) :
    (runAll I s.types (s.stmts.toList ++ [.put (Layout.specialOffset P.env.arch .cia) e])
      (.start memory σ)).state.Clean P.env.arch := by
  rw [runAll_append]
  have hcode := hsound.code.run_clean hI hord (.start memory hσ)
  refine Flow.Clean.state_clean (R := fun m => m.state.Clean P.env.arch)
    (hcode.andThen fun m hm => ?_) fun m hm => hm
  rw [runAll_single]
  refine .behind (hm.state.writeCia I.order ?_)
  rw [he.eval_ty hm.typed, Arch.wordTy_eq]

theorem Ending.run_clean (hI : I.Bitwise) (hord : I.Orders) {q q' : Progress}
    (h : Ending P () () q q') (hσ : σ.Clean P.env.arch) :
    (runAll I q.stage.types q.stage.stmts.toList (.start memory σ)).state.Clean P.env.arch := by
  cases h with
  | through s htogether hsound =>
      rw [htogether.left]
      exact (hsound.code.run_clean hI hord (.start memory hσ)).state_clean fun m hm => hm.state
  | stop s kind e e' houter hsound he hkind hleft hright hnext hnext' =>
      rw [hleft, Stage.push_stmts, Stage.push_types]
      exact hsound.run_putCia hI hord he.hasTy hσ
  | followed s kind target houter hsound hkind hcut hmay hword hleft hright hnext hnext' =>
      rw [hleft, Stage.push_stmts, Stage.push_types]
      exact hsound.run_putCia hI hord Paired.imm.hasTy hσ

/-- An instruction that is lifted alone. -/
theorem Answers.run_clean (hI : I.Bitwise) (hord : I.Orders) {single block : Block}
    {left right : Report} (h : Answers P single block left right) (hsingle : single.types = #[])
    (hempty : single.stmts = #[]) (hσ : σ.Clean P.env.arch) :
    (runAll I left.block.types left.block.stmts.toList (.start memory σ)).state.Clean
      P.env.arch := by
  cases h with
  | refused hleft hleft_block hright hright_block =>
      rw [hleft_block, Block.stopped, hempty]
      exact hσ.writeCia I.order (P.env.ty_address_value P.env.cia)
  | lifted q q' hook hmarked hending hleft hleft_block hright hright_block =>
      rw [hleft_block, Block.extended, hsingle, hempty, Array.empty_append, Array.empty_append]
      exact hending.run_clean hI hord hσ

end

theorem Joined.agree {arch : Arch} {order : ByteOrder} {next next' : Continuation}
    {m m' : Machine M} (h : Joined arch order next next' m m') : m.state.Agree arch m'.state := by
  cases h with
  | onward hmemory hstate => exact hstate
  | stopped kind hmemory hstate => exact hstate ▸ .refl arch m'.state
  | followed kind target hmemory hstate hpc => exact hstate

/-- Blocks run in tables of types that hold their own. -/
theorem Block.Grown.run_clean {I : Interp M} (hI : I.Bitwise) (hord : I.Orders) {arch : Arch}
    {b : Block} (h : Grown arch b) {types : Array Ty}
    (htypes : ∀ (t : Nat) (τ : Ty), b.types[t]? = some τ → types[t]? = some τ) {m : Machine M}
    (hm : m.state.Clean arch) : (runAll I types b.stmts.toList m).state.Clean arch := by
  induction h with
  | empty ipOffset => exact hm
  | @lift b _ g harch hcheck hinjector code offset hcode cia blockStart ih =>
      subst harch
      obtain ⟨w, hanswers⟩ :=
        Guest.exists_answers hcheck hinjector hcode (show (Block.empty 0).types = #[] from rfl)
      obtain ⟨_, _, newTypes, stmts, hinStep, -⟩ := hanswers.inStep rfl rfl rfl
      rw [hinStep.block_eq] at htypes ⊢
      rw [Array.toList_append, runAll_append]
      refine Flow.state_andThen (ih fun t τ ht => htypes t τ ?_) fun m hm => ?_
      · obtain ⟨hlt, -⟩ := Array.getElem?_eq_some_iff.mp ht
        rw [Array.getElem?_append_left hlt, ht]
      · -- The instruction does in the block what it does alone.
        have hrelated := hinStep.related I types m.state m htypes (.refl _ _)
        refine GuestState.Clean.agree ?_ (hrelated.state_agree fun _ _ h => h.agree)
        exact hanswers.run_clean hI hord rfl rfl hm

/-! ## Condition fields -/

theorem Stmt.OffFields.shift {arch : Arch} {stmt : Stmt} (h : stmt.OffFields arch) (k : Nat) :
    (stmt.shift k).OffFields arch := by
  intro s p hs hp e heq
  cases stmt with
  | put offset value =>
      obtain ⟨rfl, -⟩ := Stmt.put.inj heq
      exact h s p hs hp value rfl
  | _ => cases heq

/-- Renumbered temporaries change nothing. -/
theorem Fieldwise.shift {arch : Arch} {ss : List Stmt} (h : Fieldwise arch ss) (k : Nat) :
    Fieldwise arch (ss.map (Stmt.shift k)) := by
  induction h with
  | nil => exact .nil
  | other hss hstmt ih =>
      rw [List.map_append]
      exact ih.other (hstmt.shift k)
  | field hss f hp hq ih =>
      rw [List.map_append]
      exact ih.field f hp hq

theorem Ending.fieldwise {P : Placement} {q q' : Progress} (h : Ending P () () q q')
    (hword : ¬P.word.IsBitLogic) : Fieldwise P.env.arch q'.stage.stmts.toList := by
  cases h with
  | through s htogether hsound =>
      rw [htogether.right, Stage.on, Array.toList_map]
      exact (hsound.fields hword).shift _
  | stop s kind e e' houter hsound he hkind hleft hright hnext hnext' =>
      rw [hright, Stage.push_stmts, Stage.on, Array.toList_map]
      exact ((hsound.fields hword).shift _).other
        (Stmt.offFields_slot (s := .special .cia) (p := ⟨_, P.env.arch.wordTy⟩) rfl rfl)
  | followed s kind target houter hsound hkind hcut hmay _ hleft hright hnext hnext' =>
      rw [hright, Stage.on, Array.toList_map]
      exact (hsound.fields hword).shift _

/-- The code that a lifting adds to a block. -/
theorem Guest.lift_fieldwise {g : Guest} (hinjector : g.injector = none) {code : ByteArray}
    {offset : Nat} {w : Insn} (hfetch : Insn.fetch? code offset g.info.order = some w)
    (hword : ¬w.IsBitLogic) {cia blockStart : BitVec 64} {b : Block} {l : Lifted}
    (hresult : (g.lift code offset cia blockStart b).result = .ok l) :
    ∃ stmts, (g.lift code offset cia blockStart b).block.stmts.toList = b.stmts.toList ++ stmts ∧
      Fieldwise g.arch stmts := by
  have hcheck : g.check = .ok () := check_of_lift hresult
  have hanswers : Answers (placementAt hcheck code offset cia blockStart b w) (.empty 0) b
      _ (g.lift code offset cia blockStart b) := lift_answers hcheck hinjector hfetch rfl
  cases hanswers with
  | refused hleft hleft_block hright hright_block =>
      refine ⟨[.put _ _], by rw [hright_block, Block.stopped, Array.toList_push], ?_⟩
      exact Fieldwise.nil.other
        (Stmt.offFields_slot (s := .special .cia) (p := ⟨_, g.arch.wordTy⟩) rfl rfl)
  | lifted q q' hook hmarked hending hleft hleft_block hright hright_block =>
      refine ⟨q'.stage.stmts.toList, ?_, hending.fieldwise hword⟩
      rw [hright_block, Block.extended, Array.toList_append]

/-- Flag bytes keep to their bits along every run of lifted code, up to its end or to an exit that
is taken. Code writes both bytes of a condition field or neither, unless it combines single bits. -/
theorem flags_stay_clean {M : Type} (I : Interp M) (hI : I.Bitwise) (hord : I.Orders)
    (arch : Arch) :
    (∀ (b : Block) (m : Machine M), b.Grown arch → m.state.Clean arch →
      (runAll I b.types b.stmts.toList m).state.Clean arch) ∧
    ∀ (g : Guest) (code : ByteArray) (offset : Nat) (w : Insn) (cia blockStart : BitVec 64)
      (b : Block) (l : Lifted), g.arch = arch → g.injector = none →
      Insn.fetch? code offset g.info.order = some w → ¬w.IsBitLogic →
      (g.lift code offset cia blockStart b).result = .ok l →
      ∃ stmts, (g.lift code offset cia blockStart b).block.stmts.toList =
        b.stmts.toList ++ stmts ∧ Fieldwise arch stmts := by
  constructor
  · intro b m hb hm
    exact hb.run_clean hI hord (fun _ _ h => h) hm
  · rintro g code offset w cia blockStart b l rfl hinjector hfetch hword hresult
    exact Guest.lift_fieldwise hinjector hfetch hword hresult

/-- A comparison of two words. -/
theorem flags_stay_clean_compare :
    let code : ByteArray := ⟨#[0x7C, 0x03, 0x20, 0x00]⟩
    let g : Guest := { arch := .ppc64 }
    let b := (g.lift code 0 0x1000 0x1000 (.empty 1280)).block
    let σ : GuestState := fun _ => 0
    (runAll (.integer .big) b.types b.stmts.toList (.start () σ)).state.Clean .ppc64 ∧
      ∃ stmts, b.stmts.toList = [] ++ stmts ∧ Fieldwise .ppc64 stmts := by
  intro code g b σ
  have hfetch : Insn.fetch? code 0 g.info.order = some ⟨0x7C032000⟩ := by decide
  have hresult : (g.lift code 0 0x1000 0x1000 (.empty 1280)).result = .ok ⟨4, .continue, none⟩ := by
    decide +kernel
  have hgrown : b.Grown .ppc64 :=
    .lift (.empty 1280) g rfl (Guest.check_of_lift hresult) rfl code 0 (by decide) 0x1000 0x1000
  have hclean : (Machine.start () σ).state.Clean .ppc64 := by
    intro s mask p _ _ k hk
    simp [Machine.start, σ] at hk
  obtain ⟨hrun, hfields⟩ := flags_stay_clean (.integer .big) (Interp.integer_bitwise .big)
    (Interp.integer_orders .big) .ppc64
  exact ⟨hrun b _ hgrown hclean,
    hfields g code 0 _ 0x1000 0x1000 (.empty 1280) _ rfl rfl hfetch (by decide) hresult⟩

end PowerLift
