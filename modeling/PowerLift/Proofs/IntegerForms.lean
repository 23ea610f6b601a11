import PowerLift.Family.Rotate
import PowerLift.Proofs.FlagConditions
import PowerLift.Proofs.Routes

/-!
# Forms of integer instructions

Three-register forms bind a result and set the flags that belong to it, then write the result and
compare it where they are asked to. Rotates and shifts end alike. What an instruction is seen to
compute tells what its accepted word does.
-/

namespace PowerLift

open Point (Knows Next Before Quiet)

variable {M : Type} {I : Interp M} {env : Env} {c : Point M} {S : GuestState → Prop} {e : Expr}
  {w : Insn} {i : Nat}

namespace Reaches

variable {β : Type} {Q : β → Point M → Prop}

/-- The end of most forms: the result is written and compared where that is asked for. -/
theorem finish (hI : I.Integral) (hlayout : env.layout = env.arch) (hi : i < 32)
    {x : BitVec env.arch.word.ty.bits} (he : ∀ {S}, c.Knows I S e ⟨env.arch.word.ty, x⟩)
    {σ : GuestState} (out : Computed env.arch.word.ty.bits)
    (hstate : c.state = σ.withFlags env.arch out.carry out.overflow) (hresult : out.result = x) :
    Reaches env I c (Lift.putGpr i e >>= fun _ =>
      if out.record then Lift.recordResult e else Pure.pure ())
      fun _ c' => c'.state = σ.after env.arch I.order i out := by
  subst hresult
  refine .putGpr (S := fun _ => True) hlayout hi he trivial ?_
  intro c₁ _ hwritten
  rw [hstate] at hwritten
  unfold GuestState.after
  split
  next hrecord =>
    refine .last (.recordResult (S := fun _ => True) hI hlayout he.up trivial ?_)
    intro c₂ _ hcompared
    exact .pure (hwritten ▸ hcompared)
  next => exact .pure hwritten

/-- A result is written and not compared. -/
theorem putResult (hlayout : env.layout = env.arch) (hi : i < 32)
    {x : BitVec env.arch.word.ty.bits} (he : ∀ {S}, c.Knows I S e ⟨env.arch.word.ty, x⟩)
    {σ : GuestState} {carry : Option Bool} (hstate : c.state = σ.withFlags env.arch carry none) :
    Reaches env I c (Lift.putGpr i e) fun _ c' =>
      c'.state = σ.after env.arch I.order i { result := x, carry } := by
  refine .last (.putGpr (S := fun _ => True) hlayout hi he trivial ?_)
  intro c₁ _ hwritten
  rw [hstate] at hwritten
  exact .pure hwritten

/-- A value that is held and written. -/
theorem putBound (hlayout : env.layout = env.arch) (hi : i < 32)
    {x : BitVec env.arch.word.ty.bits} (he : c.Knows I S e ⟨env.arch.word.ty, x⟩)
    (hS : S c.state) :
    Reaches env I c (Lift.bind e >>= Lift.putGpr i) fun _ c' =>
      c'.state = c.state.withOperand env.arch I.order i x := by
  refine .bind he hS ?_
  intro r c₁ _ hquiet hr
  refine .last (.putGpr (S := fun _ => True) hlayout hi hr trivial ?_)
  intro c₂ _ hstate
  rw [hquiet.state_eq] at hstate
  exact .pure hstate

/-- The overflow, where it is asked for. -/
theorem overflowIf (hI : I.Integral) (hlayout : env.layout = env.arch) {p : Prop} [Decidable p]
    {rule : FlagRule} {res l r : Expr} {v : Value} {b : Bool} (hres : ∀ {S}, c.Knows I S res v)
    (hcond : FlagRule.Holds I c (fun _ => True) (rule.overflow v.ty res l r) b) :
    Reaches env I c (if p then Lift.setOverflow rule res l r else Pure.pure ()) fun _ c' =>
      c'.state = c.state.withFlags env.arch none (if p then some b else none) := by
  split
  · refine .last (.setOverflow hI.toBitwise hlayout hres hcond trivial ?_)
    intro c' _ hstate
    exact .pure hstate
  · exact .pure rfl

/-- The carry, and the overflow where it is asked for. -/
theorem carryThenOverflow (hI : I.Integral) (hlayout : env.layout = env.arch) {p : Prop}
    [Decidable p] {rule rule' : FlagRule} {res l r carryIn : Expr} {v : Value} {carry b : Bool}
    (hres : ∀ {S}, c.Knows I S res v)
    (hcarry : FlagRule.Holds I c (fun _ => True) (rule.carry v.ty res l r carryIn) carry)
    (hcond : FlagRule.Holds I c (fun _ => True) (rule'.overflow v.ty res l r) b) :
    Reaches env I c (Lift.setCarry rule res l r carryIn >>= fun _ =>
      if p then Lift.setOverflow rule' res l r else Pure.pure ()) fun _ c' =>
        c'.state = c.state.withFlags env.arch (some carry) (if p then some b else none) := by
  refine .setCarry hI.toBitwise hlayout hres hcarry trivial ?_
  intro c₁ _ hstate
  refine (overflowIf hI hlayout hres.up hcond.up).mono ?_
  intro _ c₂ hstate'
  rw [hstate', hstate]
  split <;> rfl

end Reaches

/-! ## Three-register forms -/

section

variable {arch : Arch} (harch : arch = .ppc64)

include harch

theorem Value.double_eq (x : BitVec arch.word.ty.bits) :
    (⟨arch.word.ty, x⟩ : Value) = ⟨.i64, x.setWidth 64⟩ := by
  subst harch
  exact congrArg (Value.mk .i64) (BitVec.setWidth_eq x).symm

theorem Value.of_double (x : BitVec 64) :
    (⟨.i64, x⟩ : Value) = ⟨arch.word.ty, x.setWidth _⟩ := by
  subst harch
  exact congrArg (Value.mk .i64) (BitVec.setWidth_eq x).symm

end

/-- From `c` on, `x` binds the temporary `t` to a result and sets the flags that belong to it. -/
def BindsResult (env : Env) (I : Interp M) (c : Point M) (x : Lift Unit) (t : Nat)
    (out : Computed env.arch.word.ty.bits) : Prop :=
  Reaches env I c x fun _ c' =>
    (∀ {S}, c'.Knows I S (.tmp t) ⟨env.arch.word.ty, out.result⟩) ∧
      c'.state = c.state.withFlags env.arch out.carry out.overflow

/-- The operands of a three-register form are held. -/
structure Held (env : Env) (I : Interp M) (c : Point M) (a b : Expr)
    (x y : BitVec env.arch.word.ty.bits) : Prop where
  left : ∀ {S}, c.Knows I S a ⟨env.arch.word.ty, x⟩
  right : ∀ {S}, c.Knows I S b ⟨env.arch.word.ty, y⟩

section

variable {a b : Expr} {t : Nat} {x y z : BitVec env.arch.word.ty.bits}

theorem Held.up {c' : Point M} [Before I c c'] (h : Held env I c a b x y) :
    Held env I c' a b x y := ⟨h.left.up, h.right.up⟩

/-- The operands of a form on doublewords. -/
theorem Held.doubles (h : Held env I c a b x y) (harch : env.arch = .ppc64) :
    (∀ {S}, c.Knows I S a ⟨.i64, x.setWidth 64⟩) ∧ ∀ {S}, c.Knows I S b ⟨.i64, y.setWidth 64⟩ :=
  ⟨h.left.congr (Value.double_eq harch x), h.right.congr (Value.double_eq harch y)⟩

namespace BindsResult

theorem listed {line : String} {form : Unit → Lift Unit} {out : Computed env.arch.word.ty.bits}
    (ht : c.stage.Open t env.arch.word.ty)
    (hform : ∀ c' [Next I c c'], c'.state = c.state → c'.stage.Open t env.arch.word.ty →
      BindsResult env I c' (form ()) t out) :
    BindsResult env I c (Lift.listed line >>= form) t out := by
  refine Reaches.listed ?_
  intro c' _ hquiet
  have hreaches := hform c' hquiet.state_eq (hquiet.isOpen _ _ ht)
  rwa [BindsResult, hquiet.state_eq] at hreaches

theorem bind {v : Value} {form : Expr → Lift Unit} {out : Computed env.arch.word.ty.bits}
    (ht : c.stage.Open t env.arch.word.ty) (he : ∀ {S}, c.Knows I S e v)
    (hform : ∀ r c' [Next I c c'], c'.state = c.state → c'.stage.Open t env.arch.word.ty →
      (∀ {S}, c'.Knows I S r v) → BindsResult env I c' (form r) t out) :
    BindsResult env I c (Lift.bind e >>= form) t out := by
  refine Reaches.bind (S := fun _ => True) he trivial ?_
  intro r c' _ hquiet hr
  have hreaches := hform r c' hquiet.state_eq (hquiet.isOpen _ _ ht) hr
  rwa [BindsResult, hquiet.state_eq] at hreaches

theorem give {α : Type} {x : Lift α} {r : α} {form : α → Lift Unit}
    {out : Computed env.arch.word.ty.bits}
    (hx : Lift.exec env c.progress x = (.ok r, c.progress))
    (hform : BindsResult env I c (form r) t out) : BindsResult env I c (x >>= form) t out :=
  Reaches.give hx hform

/-- The temporary is bound first, and the flags are set. -/
theorem assign (ht : c.stage.Open t env.arch.word.ty) {out : Computed env.arch.word.ty.bits}
    (he : ∀ {S}, c.Knows I S e ⟨env.arch.word.ty, out.result⟩) {flags : Unit → Lift Unit}
    (hflags : ∀ c' [Next I c c'], (∀ {S}, c'.Knows I S (.tmp t) ⟨env.arch.word.ty, out.result⟩) →
      Reaches env I c' (flags ()) fun _ c'' =>
        c''.state = c'.state.withFlags env.arch out.carry out.overflow) :
    BindsResult env I c (Lift.assign t e >>= flags) t out := by
  refine Reaches.assign (S := fun _ => True) ht he trivial ?_
  intro c₁ _ hstate hres
  refine .last (.seq (hflags c₁ hres) ?_)
  intro _ c₂ _ hwritten
  rw [hstate] at hwritten
  exact .pure ⟨hres.up, hwritten⟩

/-- A result without flags. -/
theorem only (ht : c.stage.Open t env.arch.word.ty)
    (he : ∀ {S}, c.Knows I S e ⟨env.arch.word.ty, x⟩) (record : Bool) :
    BindsResult env I c (Lift.assign t e) t { result := x, record } := by
  refine Reaches.last (.assign (S := fun _ => True) ht he trivial ?_)
  intro c' _ hstate hres
  exact .pure ⟨hres, hstate⟩

end BindsResult

end

theorem exec_needMode64 {p : Progress} {what : String} (harch : env.arch = .ppc64) :
    Lift.exec env p (Lift.needMode64 w what) = (.ok (), p) := by
  have hread : Lift.exec env p (Lift.needMode64 w what) =
      Lift.exec env p (if !env.arch.is64 then Lift.unrecognized w what else pure ()) := rfl
  rw [hread, harch]
  rfl

theorem exec_wordTy {p : Progress} : Lift.exec env p Lift.wordTy = (.ok env.arch.word.ty, p) := by
  have hty := Arch.wordTy_eq env.arch
  exact congrArg (fun τ => (Except.ok τ, p)) hty

theorem Arithmetic.registers_reaches (hI : I.Integral) (hlayout : env.layout = env.arch)
    {out : Computed env.arch.word.ty.bits} (hrecord : out.record = w.record)
    (hform : ∀ a b t (c' : Point M), c'.state = c.state → c'.stage.Open t env.arch.word.ty →
      Held env I c' a b (c.state.operand env.arch I.order w.ra)
        (c.state.operand env.arch I.order w.rb) →
      BindsResult env I c' (registerResult w a b t) t out) :
    Reaches env I c (registers w) fun _ c' =>
      c'.state = c.state.after env.arch I.order w.rd out := by
  unfold registers
  refine .hold hlayout w.ra_lt ?_
  intro a c₁ _ hquiet ha
  refine .hold hlayout w.rb_lt ?_
  intro b c₂ _ hquiet' hb
  rw [hquiet.state_eq] at hb
  refine .give exec_wordTy (.newTemp ?_)
  intro t c₃ _ hquiet'' ht
  have hstate : c₃.state = c.state := by
    rw [hquiet''.state_eq, hquiet'.state_eq, hquiet.state_eq]
  refine .seq (hform a b t c₃ hstate ht ⟨ha.up, hb.up⟩) ?_
  intro _ c₄ _ ⟨hres, hflags⟩
  rw [hstate] at hflags
  rw [← hrecord]
  exact .finish hI hlayout w.rd_lt hres out hflags rfl

theorem Arithmetic.lift_registers (hopcode : w.opcode = 31) (hxo : w.xo9 ∈ Route.arithmeticForms) :
    lift w = registers w := by
  have hnot : ∀ xo ∈ Route.arithmeticForms, [779, 267, 777, 265].contains xo = false ∧
      [779, 267, 777, 265].contains (xo + 512) = false := by decide
  have hmodulo : [779, 267, 777, 265].contains w.xo10 = false := by
    rcases w.xo10_cases with h | h
    · rw [h]
      exact (hnot _ hxo).1
    · rw [h]
      exact (hnot _ hxo).2
  simp only [lift, hopcode, hmodulo, Bool.false_eq_true, if_false]

/-! ## Whole instructions -/

/-- The guest accepts `w`, and its code computes what `P` says into general register `i`. A rotation
may serve a request instead. -/
def Guest.ComputesInto (g : Guest) (w : Insn) (i : Nat) (I : Interp M)
    (P : (arch : Arch) → GuestState → Computed arch.word.ty.bits → Prop) : Prop :=
  g.Accepts w ∧ ∀ l ss, g.Codes w l ss → (w.opcode ∈ [21, 30] → l.hook = none) →
    l = ⟨4, .continue, none⟩ ∧ ∀ types m, ∃ out m', P g.arch m.state out ∧
      runAll I types ss m = .behind m' ∧ m'.memory = m.memory ∧
      GuestState.Shows g.arch I.order i out m.state m'.state

/-- A word without closed gates computes what its lifting is seen to compute. -/
theorem Guest.computesInto {g : Guest} {route : Route} (hroute : Route.find? w = some route)
    (hgates : route.closedGate? g.arch (.resolve g.arch g.info.caps) = none) (hi : i < 32)
    (P : ByteOrder → (arch : Arch) → GuestState → Computed arch.word.ty.bits → Prop)
    (hlift : ∀ {N : Type} {J : Interp N} (env : Env) (c : Point N), J.Integral →
      env.layout = env.arch → env.arch = g.arch → ∃ out, P J.order env.arch c.state out ∧
        Reaches env J c (route.family.lift w) fun _ c' =>
          c'.state = c.state.after env.arch J.order i out)
    (hI : I.Integral) : g.ComputesInto w i I (P I.order) := by
  have hread : ∀ (env : Env) (p : Progress), Lift.exec env p (read : Lift Env) = (.ok env, p) :=
    fun _ _ => rfl
  have haccepts : g.Accepts w := by
    refine accepts_of_exec fun env p hlayout harch hfeatures hp => ?_
    -- The lifting does not depend on the machine, and any will do.
    let c : Point Unit := ⟨p, .start () fun _ => 0, hp⟩
    obtain ⟨-, -, _, c', hexec, hleads, -⟩ :=
      hlift env c (Interp.integral_integral .big) hlayout harch
    refine ⟨c'.progress, ?_, hleads.next_eq⟩
    have hopen : route.closedGate? env.arch env.features = none := by rw [harch, hfeatures, hgates]
    simp only [Lift.instruction, hroute, Lift.exec_bind, hread, hopen]
    exact hexec
  refine ⟨haccepts, fun l ss hcodes hplain => ?_⟩
  have hhook : l.hook = none := by
    by_cases hopcode : w.opcode ∈ [21, 30]
    · exact hplain hopcode
    · exact hcodes.hook_eq_none (by simpa using hopcode)
  refine ⟨hcodes.eq_of_accepts haccepts hhook, fun types m => ?_⟩
  have hachieves : ∀ (env : Env) (p : Progress), env.layout = env.arch → env.arch = g.arch →
      env.host = g.host → p.stage.Level → Lift.Achieves env I p (Lift.instruction w) (· = m)
        fun m₁ m' => m'.memory = m₁.memory ∧ ∃ out, P I.order g.arch m.state out ∧
          GuestState.Shows g.arch I.order i out m.state m'.state := by
    intro env p hlayout harch _ hp
    obtain ⟨out, hout, hreaches⟩ := hlift env ⟨p, m, hp⟩ hI hlayout harch
    refine .instruction hroute (.of_reaches (c := ⟨p, m, hp⟩) (hreaches.mono ?_))
    intro _ c' hstate
    rw [← harch]
    refine ⟨out, hout, ?_⟩
    rw [show c'.machine.state = _ from hstate]
    exact GuestState.shows_after hi out
  obtain ⟨-, hrun⟩ := hcodes.performs hhook hachieves
  obtain ⟨m', hm', hmemory, out, hout, hshows⟩ := hrun types m rfl
  exact ⟨out, m', hout, hm', hmemory, hshows⟩

/-- A word that stands alone runs as it computes. -/
theorem Guest.ComputesInto.exists_run {g : Guest}
    {P : (arch : Arch) → GuestState → Computed arch.word.ty.bits → Prop}
    (h : g.ComputesInto w i I P) (hcheck : g.check = .ok ()) (code : ByteArray)
    (hfetch : Insn.fetch? code 0 g.info.order = some w) (hopcode : w.opcode ∉ [21, 30])
    (m : Machine M) :
    ∃ ss out m', g.Codes w ⟨4, .continue, none⟩ ss ∧ P g.arch m.state out ∧
      runAll I #[] ss m = .behind m' ∧ GuestState.Shows g.arch I.order i out m.state m'.state := by
  obtain ⟨haccepts, hcomputes⟩ := h
  have hresult : (g.lift code 0 0 0 (.empty 0)).result = .ok ⟨4, .continue, none⟩ :=
    haccepts code 0 0 0 _ hcheck hfetch fun hopcode' => absurd hopcode' hopcode
  have hcodes : g.Codes w ⟨4, .continue, none⟩ _ := .of_lift hfetch hresult rfl
  obtain ⟨-, hrun⟩ := hcomputes _ _ hcodes fun hopcode' => absurd hopcode' hopcode
  obtain ⟨out, m', hout, hm', -, hshows⟩ := hrun #[] m
  exact ⟨_, out, m', hcodes, hout, hm', hshows⟩

end PowerLift
