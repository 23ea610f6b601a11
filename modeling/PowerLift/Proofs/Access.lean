import PowerLift.Proofs.Acceptance
import PowerLift.Proofs.ByteMemory

/-!
# Accesses to memory

Instructions with two address registers add them modulo the width of a general register, register
zero reading as zero. Some demand an aligned address. What is stored is the low part of a register.
-/

namespace PowerLift

open Lift (Does Leads exec)
open PowerLift.Expr (un bin)

variable {M : Type} {I : Interp M} {env : Env} {p : Progress} {m : Machine M} {w : Insn}

/-! ## Literals and registers -/

theorem Env.imm_check (env : Env) (s : Stage) (v : BitVec 64) :
    s.check (env.imm v) = .ok env.arch.wordTy := by
  cases env with | mk arch => cases arch <;> rfl

theorem Env.imm_eval (env : Env) (v : BitVec 64) :
    (env.imm v).eval I m = ⟨env.arch.wordTy, v.setWidth _⟩ := by
  cases env with
  | mk arch =>
      cases arch with
      | ppc32 => rfl
      | ppc64 => exact congrArg (Value.mk .i64) (BitVec.setWidth_eq v).symm

/-- A read of a general register. -/
def Expr.gpr (arch : Arch) (i : Nat) : Expr := .get (i * arch.wordBytes) arch.wordTy

/-- The value of a general register. -/
def GuestState.gpr (arch : Arch) (order : ByteOrder) (σ : GuestState) (i : Nat) :
    BitVec arch.wordTy.bits :=
  σ.read order (i * arch.wordBytes) arch.wordTy

theorem exec_getGpr (hlayout : env.layout = env.arch) {i : Nat} (hi : i < 32) :
    exec env p (Lift.getGpr i) = (.ok (.gpr env.arch i), p) := by
  rw [← hlayout]
  exact Lift.exec_getSlot (Layout.gpr_eq env.layout hi)

/-! ## Operators on words -/

section

variable {s : Stage} {arch : Arch} {a b : Expr} {x y : BitVec arch.wordTy.bits}

theorem word_check {op : Width → Op} (hop : ∀ w, (op w).signature = .same w.ty)
    (ha : s.check a = .ok arch.wordTy) (hb : s.check b = .ok arch.wordTy) :
    s.check (bin (op arch.word.width) a b) = .ok arch.wordTy := by
  cases arch <;> exact Stage.check_bin (hop _) ha hb

theorem word_add (hI : I.Modular) (ha : a.eval I m = ⟨arch.wordTy, x⟩)
    (hb : b.eval I m = ⟨arch.wordTy, y⟩) :
    (bin (.add arch.word.width) a b).eval I m = ⟨arch.wordTy, x + y⟩ := by
  cases arch <;> exact hI.eval_add ha hb

theorem word_and (hI : I.Modular) (ha : a.eval I m = ⟨arch.wordTy, x⟩)
    (hb : b.eval I m = ⟨arch.wordTy, y⟩) :
    (bin (.and arch.word.width) a b).eval I m = ⟨arch.wordTy, x &&& y⟩ := by
  cases arch <;> exact hI.eval_and ha hb

theorem word_cmpNE (hI : I.Modular) (ha : a.eval I m = ⟨arch.wordTy, x⟩)
    (hb : b.eval I m = ⟨arch.wordTy, y⟩) :
    (bin (.cmpNE arch.word.width) a b).eval I m = ⟨.i1, .ofBool (x != y)⟩ := by
  cases arch <;> exact hI.eval_cmpNE ha hb

theorem word_cmpNE_check (ha : s.check a = .ok arch.wordTy) (hb : s.check b = .ok arch.wordTy) :
    s.check (bin (.cmpNE arch.word.width) a b) = .ok .i1 := by
  cases arch <;> exact Stage.check_bin rfl ha hb

end

/-! ## Sums of registers -/

/-- The sum of two registers, the first reading as zero where it is register zero. -/
def Expr.indexed (arch : Arch) (ra rb : Nat) : Expr :=
  if ra = 0 then .gpr arch rb else bin (.add arch.word.width) (.gpr arch ra) (.gpr arch rb)

/-- The value of such a sum. -/
def GuestState.indexed (arch : Arch) (order : ByteOrder) (σ : GuestState) (ra rb : Nat) :
    BitVec arch.wordTy.bits :=
  (if ra = 0 then 0 else σ.gpr arch order ra) + σ.gpr arch order rb

/-- What the address registers of an instruction add up to. -/
def Machine.effective (I : Interp M) (arch : Arch) (w : Insn) (m : Machine M) : Value :=
  ⟨arch.wordTy, m.state.indexed arch I.order w.ra w.rb⟩

theorem Expr.indexed_check (s : Stage) (arch : Arch) (ra rb : Nat) :
    s.check (.indexed arch ra rb) = .ok arch.wordTy := by
  unfold indexed
  split
  · rfl
  · exact word_check (fun _ => rfl) rfl rfl

theorem Expr.indexed_eval (hI : I.Modular) (arch : Arch) (ra rb : Nat) :
    (Expr.indexed arch ra rb).eval I m = ⟨arch.wordTy, m.state.indexed arch I.order ra rb⟩ := by
  unfold indexed GuestState.indexed
  split
  next => exact congrArg (Value.mk _) (BitVec.zero_add _).symm
  next => exact word_add hI rfl rfl

theorem exec_eaOr0Idx (hlayout : env.layout = env.arch) {ra rb : Nat} (ha : ra < 32)
    (hb : rb < 32) : exec env p (Lift.eaOr0Idx ra rb) = (.ok (.indexed env.arch ra rb), p) := by
  unfold Lift.eaOr0Idx Expr.indexed
  split
  · exact exec_getGpr hlayout hb
  · have hop : exec env p (Lift.wordOp .add) = (.ok (.add env.arch.word.width), p) := rfl
    simp only [Lift.exec_bind, hop, exec_getGpr hlayout ha, exec_getGpr hlayout hb]
    rfl

/-! ## Alignment -/

/-- The low bits of a number. -/
theorem toNat_and_low {n : Nat} (x : BitVec n) {k : Nat} (hk : k ≤ n) :
    (x &&& .ofNat n (2 ^ k - 1)).toNat = x.toNat % 2 ^ k := by
  have hlt : 2 ^ k - 1 < 2 ^ n := by
    have hle := Nat.pow_le_pow_right (show 0 < 2 by decide) hk
    have hpos := Nat.two_pow_pos k
    omega
  rw [BitVec.toNat_and, BitVec.toNat_ofNat, Nat.mod_eq_of_lt hlt, Nat.and_two_pow_sub_one_eq_mod]

/-- The other bits of a number. -/
theorem toNat_and_high {n : Nat} (x : BitVec n) {k : Nat} (hk : k ≤ n) :
    (x &&& ~~~.ofNat n (2 ^ k - 1)).toNat = x.toNat / 2 ^ k * 2 ^ k := by
  have hdisjoint : (x &&& ~~~.ofNat n (2 ^ k - 1)) &&& (x &&& .ofNat n (2 ^ k - 1)) = 0 := by
    ext i
    simp
    grind
  have hcover : (x &&& ~~~.ofNat n (2 ^ k - 1)) ||| (x &&& .ofNat n (2 ^ k - 1)) = x := by
    ext i
    simp
    grind
  have hsum := BitVec.toNat_add_of_and_eq_zero hdisjoint
  rw [BitVec.add_eq_or_of_and_eq_zero _ _ hdisjoint, hcover, toNat_and_low x hk] at hsum
  have hdiv := Nat.div_add_mod' x.toNat (2 ^ k)
  omega

theorem le_wordBits (arch : Arch) {k : Nat} (hk : k ≤ 4) : k ≤ arch.wordTy.bits := by
  cases arch <;> exact Nat.le_trans hk (by decide)

/-- The sizes of accesses that have a natural alignment. -/
def accessSizes : List Nat := [1, 2, 4, 8, 16]

theorem exists_pow_of_mem {n : Nat} (hn : n ∈ accessSizes) : ∃ k ≤ 4, n = 2 ^ k := by
  revert n
  decide

/-- The mask of the bits that alignment clears. -/
theorem setWidth_mask (arch : Arch) {k : Nat} (hk : k ≤ 4) :
    (BitVec.ofNat 64 (2 ^ k) - 1).setWidth arch.wordTy.bits = .ofNat _ (2 ^ k - 1) := by
  revert k
  cases arch <;> decide

/-- An address that is checked for alignment is aligned, or the block is left. -/
theorem requireAligned_leads (hI : I.Modular) (hp : p.stage.Level) {a : Expr}
    (ha : p.stage.check a = .ok env.arch.wordTy) {n : Nat} (hn : n ∈ accessSizes) :
    ∃ p', Leads env I p (Lift.requireAligned a (.ofNat 64 n)) () p' (fun m =>
      ∃ x, a.eval I m = ⟨env.arch.wordTy, x⟩ ∧ x.toNat % n = 0) id := by
  have hpower : ¬(BitVec.ofNat 64 n = 0 ∨ BitVec.ofNat 64 n &&& (BitVec.ofNat 64 n - 1) ≠ 0) := by
    revert n
    decide
  unfold Lift.requireAligned
  rw [if_neg hpower]
  split
  next => exact ⟨p, (Does.still hp rfl).leads⟩
  next =>
    obtain ⟨k, hk, rfl⟩ := exists_pow_of_mem hn
    let low := bin (.and env.arch.word.width) a (env.imm (.ofNat 64 (2 ^ k) - 1))
    let guard := bin (.cmpNE env.arch.word.width) low (env.imm 0)
    have hguard : p.stage.check guard = .ok .i1 := word_cmpNE_check
      (word_check (fun _ => rfl) ha (env.imm_check _ _)) (env.imm_check _ _)
    obtain ⟨p', hexit⟩ : ∃ p', Leads env I p (Lift.exit guard .sigBus env.cia) () p' _ id :=
      Lift.exit_leads hp hguard .sigBus env.cia
    refine ⟨p', Lift.Leads.congr ⟨hexit.exec_eq, hexit.next_eq, hexit.follows, hexit.code⟩ ?_⟩
    rintro m ⟨x, hx, haligned⟩
    have hlow : low.eval I m = ⟨env.arch.wordTy, 0⟩ := by
      rw [word_and hI hx (env.imm_eval _), setWidth_mask env.arch hk]
      refine congrArg (Value.mk _) (BitVec.eq_of_toNat_eq ?_)
      rw [toNat_and_low x (le_wordBits _ hk), haligned]
      rfl
    rw [word_cmpNE hI hlow (env.imm_eval 0)]
    refine ⟨?_, rfl⟩
    cases env.arch <;> rfl

/-! ## Stores -/

/-- A word cut to a narrower width. -/
def narrowed : Arch → Width → Expr → Expr
  | .ppc32, .w8, e => un (.cast .low32to8) e
  | .ppc32, .w16, e => un (.cast .low32to16) e
  | .ppc64, .w8, e => un (.cast .low64to8) e
  | .ppc64, .w16, e => un (.cast .low64to16) e
  | .ppc64, .w32, e => un (.cast .low64to32) e
  | _, _, e => e

section

variable {width : Width} {e : Expr}

theorem exec_narrow (hwide : width = .w64 → env.arch = .ppc64)
    (htype : e.typeOf p.stage.tempTy = .ok env.arch.wordTy) :
    exec env p (Lift.narrow e width.ty) = (.ok (narrowed env.arch width e), p) := by
  have htypeOf : exec env p (Lift.typeOf e) = (.ok env.arch.wordTy, p) := by
    rw [Lift.typeOf, Lift.exec_bind, Lift.exec_get]
    change exec env p (Lift.ofExcept (e.typeOf p.stage.tempTy)) = _
    rw [htype]
    rfl
  unfold Lift.narrow
  rw [Lift.exec_bind, htypeOf]
  generalize env.arch = arch at hwide
  cases arch <;> cases width <;> first | rfl | cases hwide rfl

theorem narrowed_check {s : Stage} {arch : Arch} (hwide : width = .w64 → arch = .ppc64)
    (he : s.check e = .ok arch.wordTy) : s.check (narrowed arch width e) = .ok width.ty := by
  cases arch <;> cases width <;> first | exact he | exact Stage.check_un rfl he | cases hwide rfl

theorem narrowed_eval (hI : I.Bitwise) {arch : Arch} (hwide : width = .w64 → arch = .ppc64)
    {x : BitVec arch.wordTy.bits} (he : e.eval I m = ⟨arch.wordTy, x⟩) :
    (narrowed arch width e).eval I m = ⟨width.ty, x.setWidth _⟩ := by
  cases arch <;> cases width <;>
    first
    | exact hI.eval_cast rfl rfl he
    | exact he.trans (congrArg (Value.mk _) (BitVec.setWidth_eq x).symm)
    | cases hwide rfl

end

theorem Stage.checkAddress_word {s : Stage} {arch : Arch} {a : Expr}
    (ha : s.check a = .ok arch.wordTy) : s.checkAddress a = .ok () := by
  unfold checkAddress
  rw [ha]
  cases arch <;> rfl

theorem Stage.check_load {s : Stage} {arch : Arch} {a : Expr} (ha : s.check a = .ok arch.wordTy)
    (order : ByteOrder) (ty : Ty) : s.check (.load order ty a) = .ok ty := by
  rw [check_eq_ok] at ha ⊢
  refine ⟨ha.1, ?_⟩
  rw [Expr.check, ha.2]
  cases arch <;> rfl

/-- What a store does to a machine. -/
def Machine.store (I : Interp M) (order : ByteOrder) (addr v : Value) (m : Machine M) : Machine M :=
  { m with memory := I.store m.memory order addr v }

theorem store_does (hp : p.stage.Level) {a v : Expr} {τ : Ty}
    (ha : p.stage.check a = .ok env.arch.wordTy) (hv : p.stage.check v = .ok τ) (hτ : τ ≠ .i1) :
    Does env I p (Lift.store a v) () { p with stage := p.stage.push (.store env.host a v) }
      fun m => m.store I env.host (a.eval I m) (v.eval I m) where
  exec_eq := by
    have hstore : p.stage.store env.host a v = .ok (p.stage.push (.store env.host a v)) := by
      simp only [Stage.store, Stage.checkAddress_word ha, hv, hτ, ok_bind, if_false]
      rfl
    change exec env p (Lift.onStage fun s => s.store env.host a v) = _
    exact Lift.exec_onStage hstore
  next_eq := rfl
  follows := ⟨hp, Nat.le_refl _, fun _ _ h => h⟩
  code := ⟨[.store env.host a v], Stage.push_stmts _, fun _ _ => rfl⟩

end PowerLift
