import PowerLift.Proofs.FlagConditions
import PowerLift.Proofs.Outcomes
import PowerLift.Proofs.Routes
import PowerLift.Proofs.ScalarOperators

/-!
# Branches

A branch goes to its target if the decremented count register and a condition bit allow it, and to
the next instruction otherwise. It writes the count register and the link register where its word
says so, wherever it goes. A target in a register is the one from before the instruction.
-/

namespace PowerLift

open Layout (specialOffset)
open Lift (exec)
open Point (Knows Has Step Since)
open PowerLift.Expr (un bin)

variable {M : Type} {I : Interp M} {env : Env} {c : Point M} {w : Insn}

/-! ## Special registers of the width of a word -/

namespace SpecialSlot

/-- The registers that hold an address or a count. -/
def IsWord (slot : SpecialSlot) : Prop := slot = .lr ∨ slot = .ctr ∨ slot = .tar

theorem IsWord.ty_eq {slot : SpecialSlot} (h : slot.IsWord) (arch : Arch) :
    slot.ty arch = arch.word.ty := by
  rcases h with rfl | rfl | rfl <;> exact Arch.wordTy_eq arch

end SpecialSlot

namespace GuestState

variable {arch : Arch} {order : ByteOrder} {σ : GuestState} {slot : SpecialSlot}

/-- The value of a special register. -/
def special (arch : Arch) (order : ByteOrder) (σ : GuestState) (slot : SpecialSlot) :
    BitVec arch.word.ty.bits :=
  σ.read order (specialOffset arch slot) arch.word.ty

/-- Another value of a special register. -/
def withSpecial (arch : Arch) (order : ByteOrder) (σ : GuestState) (slot : SpecialSlot)
    (x : BitVec arch.word.ty.bits) : GuestState :=
  σ.write order (specialOffset arch slot) ⟨arch.word.ty, x⟩

theorem special_withSpecial (x : BitVec arch.word.ty.bits) :
    (σ.withSpecial arch order slot x).special arch order slot = x := by
  have hty : arch.word.ty ≠ .i1 := by cases arch <;> decide
  exact read_write (v := ⟨arch.word.ty, x⟩) hty

/-- Condition fields are not among the special registers. -/
theorem cr_withSpecial (hslot : slot.IsWord) (x : BitVec arch.word.ty.bits) :
    (σ.withSpecial arch order slot x).cr arch = σ.cr arch := by
  have hbyte (o : Nat) (ho : Layout.crBase arch ≤ o) : σ.withSpecial arch order slot x o = σ o := by
    have hend := (Layout.special_between arch slot).le_high
    rw [hslot.ty_eq] at hend
    simp only at hend
    rw [withSpecial, write, if_neg (by simp only; omega)]
  unfold cr
  congr 1
  funext f
  simp only [crField]
  rw [hbyte _ (by omega), hbyte _ (by omega)]

/-- General registers are not among the special registers. -/
theorem operand_withSpecial {i : Nat} (hi : i < 32) (x : BitVec arch.word.ty.bits) :
    (σ.withSpecial arch order slot x).operand arch order i = σ.operand arch order i := by
  have hbelow : i * arch.wordBytes + arch.word.ty.bytes ≤ specialOffset arch slot := by
    rw [wordBytes_eq]
    exact operand_below arch hi slot
  exact read_write_disjoint (.inr hbelow)

end GuestState

theorem Point.knows_special {σ : GuestState} (arch : Arch) {slot : SpecialSlot}
    (hslot : slot.IsWord) :
    c.Knows I (· = σ) (.get (specialOffset arch slot) (slot.ty arch))
      ⟨arch.word.ty, σ.special arch I.order slot⟩ where
  check := by
    rw [hslot.ty_eq]
    rfl
  eval m _ hm := by
    rw [← hm, hslot.ty_eq]
    rfl

theorem exec_getSpecial {p : Progress} (hlayout : env.layout = env.arch) (slot : SpecialSlot) :
    exec env p (Lift.getSlot slot) =
      (.ok (.get (specialOffset env.arch slot) (slot.ty env.arch)), p) := by
  have hplace : Layout.locate env.layout (.special slot) =
      .ok ⟨specialOffset env.arch slot, slot.ty env.arch⟩ := by
    rw [hlayout]
    rfl
  exact Lift.exec_getSlot hplace

/-- Memory behind a hint that the area below the stack pointer lost its contents as control went to
an address. -/
def Env.redzoned (env : Env) (I : Interp M) (memory : M) (σ : GuestState)
    (next : BitVec env.arch.word.ty.bits) : M :=
  let size := env.abi.redzoneSize
  if size = 0 then memory
  else I.hint memory
    ⟨env.arch.word.ty, σ.operand env.arch I.order 1 - (size.setWidth 64).setWidth _⟩ size.toNat
    ⟨env.arch.word.ty, next⟩

namespace Comes

variable {φ : Prop} {Q : Continuation → Flow M → Prop} {e : Expr}

theorem putSpecial (hlayout : env.layout = env.arch) {slot : SpecialSlot} (hslot : slot.IsWord)
    {x : BitVec env.arch.word.ty.bits} (he : c.Has I e ⟨env.arch.word.ty, x⟩)
    {f : Unit → Lift Unit}
    (hf : ∀ c' [Step c c'], c'.state = c.state.withSpecial env.arch I.order slot x →
      c'.memory = c.memory → Comes env I c' (f ()) φ Q) :
    Comes env I c (Lift.putSlot slot e >>= f) φ Q := by
  have hplace : Layout.locate env.layout slot =
      .ok ⟨specialOffset env.arch slot, slot.ty env.arch⟩ := by
    rw [hlayout]
    rfl
  exact .put hplace he (hslot.ty_eq _).symm hf

/-- Memory is told that bytes lost their contents. -/
theorem hint {addr next : Expr} {x y : BitVec env.arch.word.ty.bits} {len : Nat}
    (ha : c.Has I addr ⟨env.arch.word.ty, x⟩) (hnext : c.Has I next ⟨env.arch.word.ty, y⟩)
    {f : Unit → Lift Unit}
    (hf : ∀ c' [Step c c'], c'.state = c.state →
      c'.memory = I.hint c.memory ⟨env.arch.word.ty, x⟩ len ⟨env.arch.word.ty, y⟩ →
      Comes env I c' (f ()) φ Q) :
    Comes env I c (Lift.onStage (·.hint addr len next) >>= f) φ Q := by
  let stmt : Stmt := .hint addr len next
  let c' : Point M := ⟨{ c.progress with stage := c.stage.push stmt },
    { c.machine with memory := I.hint c.memory ⟨_, x⟩ len ⟨_, y⟩ }, c.level⟩
  have hstage : c.progress.stage.hint addr len next = .ok (c.stage.push stmt) := by
    have haddr := Stage.checkAddress_word ha.check_word
    have hnext := Stage.checkAddress_word hnext.check_word
    change (do c.stage.checkAddress addr; c.stage.checkAddress next; return c.stage.push stmt) = _
    rw [haddr, hnext]
    rfl
  have : Step c c' := ⟨rfl, ⟨c.level, Nat.le_refl _, fun _ _ h => h⟩, fun _ _ _ => rfl⟩
  have hgoes : Point.Goes env I c (Lift.onStage (·.hint addr len next)) () c' := by
    refine ⟨Lift.exec_onStage hstage, [stmt], Stage.push_stmts _, fun types => ?_⟩
    rw [runAll_single, Stmt.run, ha.eval, hnext.eval]
    rfl
  exact .goes hgoes (hf c' rfl rfl)

/-- The area below the stack pointer loses its contents, if there is one. -/
theorem redzoneHint (hI : I.Modular) (hlayout : env.layout = env.arch) {next : Expr}
    {x : BitVec env.arch.word.ty.bits} (hnext : c.Has I next ⟨env.arch.word.ty, x⟩)
    {f : Unit → Lift Unit}
    (hf : ∀ c' [Since c c'], c'.state = c.state →
      c'.memory = env.redzoned I c.memory c.state x → Comes env I c' (f ()) φ Q) :
    Comes env I c (Lift.redzoneHint next >>= f) φ Q := by
  unfold Lift.redzoneHint
  simp only [bind_assoc]
  refine .give rfl ?_
  by_cases hsize : env.abi.redzoneSize = 0
  · rw [if_pos hsize]
    refine .give rfl (hf c rfl ?_)
    rw [Env.redzoned, if_pos hsize]
  · rw [if_neg hsize]
    have hsp : c.Knows I (· = c.state) (.gpr env.arch 1) _ := Point.knows_gpr env.arch 1
    have haddr := (hsp.sub (Point.knows_imm (env.abi.redzoneSize.setWidth 64)) hI).has rfl
    simp only [bind_assoc]
    refine .give rfl (.give (exec_getGpr hlayout (by decide)) (.give rfl ?_))
    refine .hint haddr hnext fun c' _ hstate hmemory => hf c' hstate ?_
    rw [hmemory, Env.redzoned, if_neg hsize]

end Comes

/-! ## Conditions -/

/-- What is read of the condition register is known where it is read. -/
theorem Lift.Yields.knows {x : Lift Expr} {value : GuestState → BitVec 32}
    (h : ∀ {p : Progress}, Lift.Yields env I p x value) (c : Point M) :
    ∃ e, exec env c.progress x = (.ok e, c.progress) ∧
      c.Knows I (· = c.state) e (.i32 (value c.state)) := by
  obtain ⟨e, hexec, hcheck, heval⟩ := h (p := c.progress)
  exact ⟨e, hexec, hcheck, fun m _ hm => hm ▸ heval m⟩

namespace Insn

/-- What a branch with options makes of the count register. -/
def counted (w : Insn) {n : Nat} (ctr : BitVec n) : BitVec n :=
  if w.bo.testBit 2 then ctr else ctr - 1

/-- Whether the options of a branch allow it: the decremented count register is zero or is not, and
the condition bit is set or is not, unless the one or the other is ignored. -/
def takes (w : Insn) (arch : Arch) (order : ByteOrder) (σ : GuestState) : Bool :=
  (w.bo.testBit 2 || (w.counted (σ.special arch order .ctr) == 0) == w.bo.testBit 1) &&
    (w.bo.testBit 4 || CrWord.bit (σ.cr arch) w.bi == w.bo.testBit 3)

end Insn

/-- The state with the count register decremented, where the options ask for it. -/
def GuestState.counted (arch : Arch) (order : ByteOrder) (σ : GuestState) (w : Insn) :
    GuestState :=
  if w.bo.testBit 2 then σ
  else σ.withSpecial arch order .ctr (w.counted (σ.special arch order .ctr))

namespace Branch

theorem countDown_comes (hI : I.Modular) (hlayout : env.layout = env.arch)
    {f : Unit → Lift Unit} {φ : Prop} {Q : Continuation → Flow M → Prop}
    (hf : ∀ c' [Since c c'], c'.state = c.state.counted env.arch I.order w →
      c'.memory = c.memory → Comes env I c' (f ()) φ Q) :
    Comes env I c (countDown (.decode w.bo) >>= f) φ Q := by
  unfold countDown
  by_cases hcount : w.bo.testBit 2 = true
  · have hskip : (BranchOptions.decode w.bo).decrement = false := by
      simp [BranchOptions.decode, hcount]
    rw [hskip]
    refine .give rfl (hf c ?_ rfl)
    rw [GuestState.counted, if_pos hcount]
  · have hcounts : (BranchOptions.decode w.bo).decrement = true := by
      simp [BranchOptions.decode, hcount]
    rw [hcounts, if_pos rfl]
    simp only [bind_assoc]
    refine .give rfl (.give (exec_getSpecial hlayout .ctr) (.give rfl ?_))
    have hone : c.Knows I (· = c.state) (env.imm 1) ⟨env.arch.word.ty, 1⟩ :=
      (Point.knows_imm 1).congr (by cases env.arch <;> rfl)
    have hctr : c.Knows I (· = c.state) _ _ := Point.knows_special env.arch (.inr (.inl rfl))
    refine .putSpecial hlayout (.inr (.inl rfl)) ((hctr.sub hone hI).has rfl) ?_
    intro c' _ hstate hmemory
    refine hf c' ?_ hmemory
    rw [hstate, GuestState.counted, Insn.counted, if_neg hcount, if_neg hcount]

/-- Whether the count register allows a branch. -/
theorem countAllows_knows (hI : I.Integral) (hlayout : env.layout = env.arch)
    (o : BranchOptions) :
    ∃ e, exec env c.progress (countAllows o) = (.ok e, c.progress) ∧
      c.Knows I (· = c.state) e
        ⟨.i1, .ofBool ((c.state.special env.arch I.order .ctr == 0) == o.onZero)⟩ := by
  have hctr : c.Knows I (· = c.state) _ _ := Point.knows_special env.arch (.inr (.inl rfl))
  have hzero : c.Knows I (· = c.state) (env.imm 0) ⟨env.arch.word.ty, 0⟩ :=
    (Point.knows_imm 0).congr (by cases env.arch <;> rfl)
  unfold countAllows
  simp only [Lift.exec_bind, exec_getSpecial hlayout]
  cases o.onZero with
  | true => exact ⟨_, rfl, (hctr.equal hzero hI).congr (by simp)⟩
  | false => exact ⟨_, rfl, (hctr.unequal hzero hI.toModular).congr (by simp [bne])⟩

theorem bitAllows_knows (hI : I.Integral) (hlayout : env.layout = env.arch) (o : BranchOptions)
    {bi : Nat} (hbi : bi < 32) :
    ∃ e, exec env c.progress (bitAllows o bi) = (.ok e, c.progress) ∧
      c.Knows I (· = c.state) e
        ⟨.i1, .ofBool (CrWord.bit (c.state.cr env.arch) bi == o.onSet)⟩ := by
  obtain ⟨e, hexec, he⟩ := Lift.Yields.knows (getCrBit_yields hI.toBitwise hbi) c
  rw [hlayout] at he
  unfold bitAllows
  rw [Lift.exec_bind, hexec]
  refine ⟨_, rfl, (he.bin (.const (.u32 _)) rfl (hI.cmpEQ .w32 _ _)).congr ?_⟩
  cases CrWord.bit (c.state.cr env.arch) bi <;> cases o.onSet <;> rfl

/-- The conditions of a branch, behind the decrement of the count register. -/
theorem taken_comes (hI : I.Integral) (hlayout : env.layout = env.arch) (o : BranchOptions)
    {bi : Nat} (hbi : bi < 32) {f : Expr → Lift Unit} {φ : Prop} {Q : Continuation → Flow M → Prop}
    (hf : ∀ t c' [Step c c'], c'.state = c.state → c'.memory = c.memory →
      (∀ {S}, c'.Knows I S t ⟨.i1, .ofBool
        ((!o.decrement || (c.state.special env.arch I.order .ctr == 0) == o.onZero) &&
          (!o.testBit || CrWord.bit (c.state.cr env.arch) bi == o.onSet))⟩) →
      Comes env I c' (f t) φ Q) :
    Comes env I c (taken o bi >>= f) φ Q := by
  obtain ⟨count, hcount, hcountKnown⟩ := countAllows_knows (c := c) hI hlayout o
  obtain ⟨bit, hbit, hbitKnown⟩ := bitAllows_knows (c := c) hI hlayout o hbi
  unfold taken
  cases hd : o.decrement <;> cases ht : o.testBit <;>
    simp only [hd, ht, Bool.not_true, Bool.not_false, Bool.true_or, Bool.false_or, Bool.true_and,
      Bool.and_true, bind_assoc] at hf ⊢
  · exact .bind (Knows.const (.u1 true)).always hf
  · exact .give hbit (.bind (hbitKnown.has rfl) hf)
  · exact .give hcount (.bind (hcountKnown.has rfl) hf)
  · exact .give hcount (.give hbit (.bind ((Knows.both hI hcountKnown hbitKnown).has rfl) hf))

/-- The conditions are told from the state before the count register changes. -/
theorem takes_counted (w : Insn) (arch : Arch) (order : ByteOrder) (σ : GuestState) :
    ((!(BranchOptions.decode w.bo).decrement ||
        ((σ.counted arch order w).special arch order .ctr == 0) ==
          (BranchOptions.decode w.bo).onZero) &&
      (!(BranchOptions.decode w.bo).testBit ||
        CrWord.bit ((σ.counted arch order w).cr arch) w.bi ==
          (BranchOptions.decode w.bo).onSet)) = w.takes arch order σ := by
  have hctr : (σ.counted arch order w).special arch order .ctr =
      w.counted (σ.special arch order .ctr) := by
    unfold GuestState.counted Insn.counted
    by_cases hcount : w.bo.testBit 2 = true
    · rw [if_pos hcount, if_pos hcount]
    · rw [if_neg hcount, if_neg hcount, GuestState.special_withSpecial]
  have hcr : (σ.counted arch order w).cr arch = σ.cr arch := by
    unfold GuestState.counted
    by_cases hcount : w.bo.testBit 2 = true
    · rw [if_pos hcount]
    · rw [if_neg hcount, GuestState.cr_withSpecial (.inr (.inl rfl))]
  rw [hctr, hcr]
  simp only [BranchOptions.decode, Bool.not_not]
  rfl

end Branch

/-! ## Links -/

/-- The state with the return address in the link register, where the word asks for it. -/
def GuestState.linked (arch : Arch) (order : ByteOrder) (σ : GuestState) (w : Insn)
    (nia : BitVec 64) : GuestState :=
  if w.lk then σ.withSpecial arch order .lr (nia.setWidth _) else σ

namespace Branch

variable {f : Unit → Lift Unit} {φ : Prop} {Q : Continuation → Flow M → Prop}

theorem link_comes (hlayout : env.layout = env.arch)
    (hf : ∀ c' [Since c c'],
      c'.state = c.state.withSpecial env.arch I.order .lr (env.nia.setWidth _) →
      c'.memory = c.memory → Comes env I c' (f ()) φ Q) :
    Comes env I c (link >>= f) φ Q := by
  unfold link
  simp only [bind_assoc]
  refine .give rfl (.give rfl ?_)
  exact .putSpecial hlayout (.inl rfl) (Point.knows_imm env.nia).always fun c' _ => hf c'

theorem linked_comes (hlayout : env.layout = env.arch)
    (hf : ∀ c' [Since c c'], c'.state = c.state.linked env.arch I.order w env.nia →
      c'.memory = c.memory → Comes env I c' (f ()) φ Q) :
    Comes env I c (if w.lk then link >>= f else f ()) φ Q := by
  by_cases hlk : w.lk = true
  · rw [if_pos hlk]
    refine link_comes hlayout fun c' _ hstate hmemory => hf c' ?_ hmemory
    rw [hstate, GuestState.linked, if_pos hlk]
  · rw [if_neg hlk]
    refine hf c ?_ rfl
    rw [GuestState.linked, if_neg hlk]

end Branch

/-! ## The instructions -/

namespace Branch

/-- Where a branch goes that is taken: to a displacement, or to what a register holds. -/
inductive Goal where
  | fixed (disp : BitVec 64)
  | held (via : Via)

namespace Goal

/-- The address that a goal is. A displacement counts from the instruction or from address zero. -/
def address (env : Env) (order : ByteOrder) (w : Insn) (σ : GuestState) : Goal → BitVec 64
  | fixed disp => env.cutAddress (if w.aa then disp else env.cia + disp)
  | held via => (σ.special env.arch order via.slot &&& ~~~3).setWidth 64

def kind (w : Insn) : Goal → JumpKind
  | fixed _ => callOrJump w
  | held via => if w.lk then .call else if via = .lr then .ret else .boring

end Goal

/-- The words that are no branches to registers: those with reserved bits, and those that would
change the count register that they go to. -/
def Goal.Refuses (w : Insn) : Goal → Prop
  | .fixed _ => False
  | .held via => w.slice 16 3 ≠ 0 ∨ (via = .ctr ∧ w.bo.testBit 2 = false)

/-- Whether the calling convention gives up the area below the stack pointer where control leaves by
a call to a fixed address, or by a return. -/
def zaps (env : Env) (w : Insn) (options : Bool) : Goal → BitVec 64 → Bool
  | .fixed _, a => !options && w.lk && env.abi.zapAtCall a
  | .held via, _ => via == .lr && (w.bo.testBit 2 && w.bo.testBit 4) && !w.lk &&
      env.abi.zapAtReturn

end Branch

namespace Insn

/-- The displacement that stands above the two lowest bits, in words. -/
def displacement (w : Insn) (n : Nat) : BitVec 64 := (w.raw.extractLsb' 2 n ++ 0#2).signExtend 64

theorem displacement_eq (w : Insn) (n : Nat) :
    w.displacement n = (BitVec.ofNat (n + 2) (w.bits 2 n * 4)).signExtend 64 := by
  have hlt : w.bits 2 n < 2 ^ n := (w.raw.extractLsb' 2 n).isLt
  have hfit : w.bits 2 n * 4 < 2 ^ (n + 2) := by
    rw [Nat.pow_add]
    exact Nat.mul_lt_mul_of_pos_right hlt (by decide)
  refine congrArg (BitVec.signExtend 64) (BitVec.eq_of_toNat_eq ?_)
  rw [BitVec.toNat_append, BitVec.toNat_ofNat (w.bits 2 n * 4), Nat.mod_eq_of_lt hfit,
    Nat.shiftLeft_eq]
  exact Nat.or_zero _

/-- The branch instructions, by whether they have options and by where they go. -/
inductive BranchForm (w : Insn) : Bool → Branch.Goal → Prop where
  | b (hopcode : w.opcode = 18) : BranchForm w false (.fixed (w.displacement 24))
  | bc (hopcode : w.opcode = 16) : BranchForm w true (.fixed (w.displacement 14))
  | bclr (hopcode : w.opcode = 19) (hxo : w.xo10 = 16) : BranchForm w true (.held .lr)
  | bcctr (hopcode : w.opcode = 19) (hxo : w.xo10 = 528) : BranchForm w true (.held .ctr)
  | bctar (hopcode : w.opcode = 19) (hxo : w.xo10 = 560) : BranchForm w true (.held .tar)

end Insn

theorem Env.cutAddress_word (env : Env) (v : BitVec env.arch.word.ty.bits) :
    env.cutAddress (v.setWidth 64) = v.setWidth 64 := by
  have hcut {ty : Ty} (hty : ty = env.arch.wordTy) (v : BitVec ty.bits) :
      env.cutAddress (v.setWidth 64) = v.setWidth 64 := by
    subst hty
    exact env.cutAddress_setWidth v
  exact hcut (Arch.wordTy_eq env.arch).symm v

theorem Env.cutAddress_cut (env : Env) (a : BitVec 64) :
    env.cutAddress (env.cutAddress a) = env.cutAddress a := by
  rw [← env.setWidth_cut a]
  exact env.cutAddress_word _

/-- How a branch at an address is left. Nothing but the count register, the link register and the
instruction address has changed, though memory may have been told that the area below the stack
pointer lost its contents. -/
def Env.leavesBranch (env : Env) (I : Interp M) (w : Insn) (options : Bool) (goal : Branch.Goal)
    (m : Machine M) : Left M :=
  let taken := !options || w.takes env.arch I.order m.state
  let target := goal.address env I.order w m.state
  let next := if taken then target else env.nia
  let counted := if options then m.state.counted env.arch I.order w else m.state
  { pc := env.cutAddress next
    kind := if taken then goal.kind w else .boring
    memory := if Branch.zaps env w options goal target then
        env.redzoned I m.memory m.state (target.setWidth _)
      else m.memory
    state := (counted.linked env.arch I.order w env.nia).withAddress env.arch I.order next }

theorem Env.exitTo_eq {memory : M} {σ : GuestState} (hmemory : c.memory = memory)
    (hstate : c.state = σ) (kind : JumpKind) (a : BitVec 64) :
    env.exitTo I kind a c.machine =
      ⟨env.cutAddress a, kind, memory, σ.withAddress env.arch I.order a⟩ := by
  subst hmemory hstate
  rfl

namespace Branch

/-- A branch that ends with a jump. -/
theorem jump_comes (hlayout : env.layout = env.arch) {e : Expr} {kind : JumpKind} {a : BitVec 64}
    (hkind : kind ≠ .noDecode) (he : c.Has I e ⟨env.arch.word.ty, a.setWidth _⟩) :
    Comes env I c (Lift.jumpTo e kind) False fun next flow => (∃ kind, next = .stop kind) ∧
      env.leave I next flow = env.exitTo I kind a c.machine :=
  .jumpTo hlayout hkind he ⟨⟨_, rfl⟩, env.leave_stop hlayout kind a c.machine⟩

theorem Goal.kind_ne_noDecode (w : Insn) (goal : Goal) : goal.kind w ≠ .noDecode := by
  cases goal <;> simp only [kind, callOrJump] <;> split_ifs <;> exact fun h => nomatch h

/-- The stack pointer is no special register. -/
theorem redzoned_withSpecial (memory : M) (σ : GuestState) (slot : SpecialSlot)
    (x next : BitVec env.arch.word.ty.bits) :
    env.redzoned I memory (σ.withSpecial env.arch I.order slot x) next =
      env.redzoned I memory σ next := by
  simp only [Env.redzoned, GuestState.operand_withSpecial (show 1 < 32 by decide)]

theorem leavesBranch_fixed (w : Insn) (disp : BitVec 64) :
    env.leavesBranch I w false (.fixed disp) c.machine =
      ⟨env.cutAddress (target env w disp), callOrJump w,
        if w.lk && env.abi.zapAtCall (target env w disp) then
          env.redzoned I c.memory c.state ((target env w disp).setWidth _)
        else c.memory,
        (c.state.linked env.arch I.order w env.nia).withAddress env.arch I.order
          (target env w disp)⟩ := rfl

theorem immediate_comes (hI : I.Modular) (hlayout : env.layout = env.arch)
    (hresteer : ∀ target, env.mayResteer target = false) :
    Comes env I c (immediate w) False fun next flow => (∃ kind, next = .stop kind) ∧
      env.leave I next flow =
        env.leavesBranch I w false (.fixed (w.displacement 24)) c.machine := by
  unfold immediate
  refine .give rfl (.listed fun c₁ _ hmachine₁ => ?_)
  rw [← hmachine₁, show (BitVec.ofNat 26 (w.li24 * 4)).signExtend 64 = w.displacement 24 from
    (w.displacement_eq 24).symm, leavesBranch_fixed]
  generalize target env w (w.displacement 24) = target
  simp only [hresteer, Bool.false_eq_true, if_false]
  have hend (c' : Point M) : Comes env I c' (Lift.jumpTo (env.imm target) (callOrJump w)) False
      fun next flow => (∃ kind, next = .stop kind) ∧
        env.leave I next flow = env.exitTo I (callOrJump w) target c'.machine :=
    jump_comes hlayout (Goal.kind_ne_noDecode w (.fixed target)) (Point.knows_imm _).always
  by_cases hlk : w.lk = true
  · have hlinked : c₁.state.linked env.arch I.order w env.nia =
        c₁.state.withSpecial env.arch I.order .lr (env.nia.setWidth _) := if_pos hlk
    rw [if_pos hlk, hlinked]
    refine link_comes hlayout fun c₂ _ hstate₂ hmemory₂ => ?_
    by_cases hzap : env.abi.zapAtCall target = true
    · simp only [hlk, hzap, Bool.and_true, if_true]
      refine .redzoneHint hI hlayout (Point.knows_imm _).always fun c₃ _ hstate₃ hmemory₃ => ?_
      rw [hstate₂, hmemory₂, redzoned_withSpecial] at hmemory₃
      rw [← Env.exitTo_eq hmemory₃ (hstate₃.trans hstate₂)]
      exact hend c₃
    · simp only [hzap, Bool.and_false, Bool.false_eq_true, if_false]
      rw [← Env.exitTo_eq hmemory₂ hstate₂]
      exact hend c₂
  · have hlinked : c₁.state.linked env.arch I.order w env.nia = c₁.state := if_neg hlk
    simp only [hlinked, hlk, Bool.false_and, Bool.false_eq_true, if_false]
    exact hend c₁

/-- The conditions, told from before the decrement of the count register. -/
theorem takes_comes (hI : I.Integral) (hlayout : env.layout = env.arch) {σ : GuestState}
    (hσ : c.state = σ.counted env.arch I.order w) {f : Expr → Lift Unit} {φ : Prop}
    {Q : Continuation → Flow M → Prop}
    (hf : ∀ t c' [Step c c'], c'.state = c.state → c'.memory = c.memory →
      (∀ {S}, c'.Knows I S t ⟨.i1, .ofBool (w.takes env.arch I.order σ)⟩) →
      Comes env I c' (f t) φ Q) :
    Comes env I c (taken (.decode w.bo) w.bi >>= f) φ Q := by
  have hbi : w.bi < 32 := w.bits_lt 16 5
  refine taken_comes hI hlayout _ hbi fun t c' _ hstate hmemory ht => ?_
  rw [hσ, takes_counted] at ht
  exact hf t c' hstate hmemory ht

theorem leavesBranch_conditional (w : Insn) (disp : BitVec 64) :
    env.leavesBranch I w true (.fixed disp) c.machine =
      if w.takes env.arch I.order c.state then
        ⟨env.cutAddress (target env w disp), callOrJump w, c.memory,
          ((c.state.counted env.arch I.order w).linked env.arch I.order w env.nia).withAddress
            env.arch I.order (target env w disp)⟩
      else
        ⟨env.cutAddress env.nia, .boring, c.memory,
          ((c.state.counted env.arch I.order w).linked env.arch I.order w env.nia).withAddress
            env.arch I.order env.nia⟩ := by
  cases htakes : w.takes env.arch I.order c.state <;>
    simp only [Env.leavesBranch, show c.machine.state = c.state from rfl, htakes] <;> rfl

theorem conditional_comes (hI : I.Integral) (hlayout : env.layout = env.arch) :
    Comes env I c (conditional w) False fun next flow => (∃ kind, next = .stop kind) ∧
      env.leave I next flow =
        env.leavesBranch I w true (.fixed (w.displacement 14)) c.machine := by
  unfold conditional
  refine .give rfl (.listed fun c₁ _ hmachine₁ => ?_)
  rw [← hmachine₁, show (BitVec.ofNat 16 (w.bd14 * 4)).signExtend 64 = w.displacement 14 from
    (w.displacement_eq 14).symm, leavesBranch_conditional]
  generalize target env w (w.displacement 14) = target
  refine countDown_comes hI.toModular hlayout fun c₂ _ hstate₂ hmemory₂ => ?_
  refine takes_comes hI hlayout hstate₂ fun t c₃ _ hstate₃ hmemory₃ ht => ?_
  refine linked_comes hlayout fun c₄ _ hstate₄ hmemory₄ => ?_
  have hstate : c₄.state =
      (c₁.state.counted env.arch I.order w).linked env.arch I.order w env.nia := by
    rw [hstate₄, hstate₃, hstate₂]
  have hmemory : c₄.memory = c₁.memory := by rw [hmemory₄, hmemory₃, hmemory₂]
  rw [← Env.exitTo_eq hmemory hstate, ← Env.exitTo_eq hmemory hstate]
  refine .exit hlayout ht.since.always fun c₅ _ hmachine₅ => ?_
  refine .stopAtNext hlayout ⟨⟨_, rfl⟩, ?_⟩
  cases w.takes env.arch I.order c₁.state with
  | true => rfl
  | false => exact (env.leave_stop hlayout _ _ _).trans (hmachine₅ ▸ rfl)

theorem counted_always {arch : Arch} {order : ByteOrder} (σ : GuestState)
    (hu : (BranchOptions.decode w.bo).unconditional = true) : σ.counted arch order w = σ := by
  simp only [BranchOptions.unconditional, BranchOptions.decode, Bool.not_not,
    Bool.and_eq_true] at hu
  exact if_pos hu.1

/-- Without conditions, a branch to a register is taken. -/
theorem leavesBranch_always {via : Via} {target : BitVec 64}
    (hu : (BranchOptions.decode w.bo).unconditional = true)
    (htarget : Goal.address env I.order w c.state (.held via) = target) :
    env.leavesBranch I w true (.held via) c.machine =
      ⟨env.cutAddress target, Goal.kind w (.held via),
        if via = .lr ∧ (!w.lk) = true ∧ env.abi.zapAtReturn = true then
          env.redzoned I c.memory c.state (target.setWidth _)
        else c.memory,
        (c.state.linked env.arch I.order w env.nia).withAddress env.arch I.order target⟩ := by
  have hcounted : c.state.counted env.arch I.order w = c.state := counted_always c.state hu
  simp only [BranchOptions.unconditional, BranchOptions.decode, Bool.not_not,
    Bool.and_eq_true] at hu
  have htakes : w.takes env.arch I.order c.state = true := by
    rw [Insn.takes, hu.1, hu.2]
    rfl
  simp only [Env.leavesBranch, show c.machine.state = c.state from rfl, htakes, hcounted, zaps,
    hu.1, hu.2, Bool.and_true, Bool.and_eq_true, beq_iff_eq, and_assoc, htarget]
  rfl

theorem leavesBranch_tested {via : Via} {target : BitVec 64}
    (hu : (BranchOptions.decode w.bo).unconditional = false)
    (htarget : Goal.address env I.order w c.state (.held via) = target) :
    env.leavesBranch I w true (.held via) c.machine =
      if w.takes env.arch I.order c.state then
        ⟨env.cutAddress target, Goal.kind w (.held via), c.memory,
          ((c.state.counted env.arch I.order w).linked env.arch I.order w env.nia).withAddress
            env.arch I.order target⟩
      else ⟨env.cutAddress env.nia, .boring, c.memory,
          ((c.state.counted env.arch I.order w).linked env.arch I.order w env.nia).withAddress
            env.arch I.order env.nia⟩ := by
  simp only [BranchOptions.unconditional, BranchOptions.decode, Bool.not_not] at hu
  cases htakes : w.takes env.arch I.order c.state <;>
    simp only [Env.leavesBranch, show c.machine.state = c.state from rfl, htakes, zaps, hu,
      htarget, Bool.and_false, Bool.false_and] <;> rfl

theorem target_comes (hI : I.Bitwise) (hlayout : env.layout = env.arch) {via : Via}
    {target : BitVec 64} (htarget : Goal.address env I.order w c.state (.held via) = target)
    {f : Expr → Lift Unit} {φ : Prop} {Q : Continuation → Flow M → Prop}
    (hf : ∀ t c' [Step c c'], c'.state = c.state → c'.memory = c.memory →
      (∀ {S}, c'.Knows I S t ⟨env.arch.word.ty, target.setWidth _⟩) → Comes env I c' (f t) φ Q) :
    Comes env I c (do
      let op ← Lift.wordOp .and
      let old ← Lift.getSlot via.slot
      let t ← Lift.bind (bin op old (env.imm (~~~3)))
      f t) φ Q := by
  have hslot : via.slot.IsWord := by cases via <;> simp [Via.slot, SpecialSlot.IsWord]
  have hheld : c.Knows I (· = c.state) _ _ := Point.knows_special env.arch hslot
  refine .give rfl (.give (exec_getSpecial hlayout via.slot) ?_)
  refine .bind (((hheld.and (Point.knows_imm (~~~3)) hI).congr ?_).has rfl) hf
  have hmask : (~~~3 : BitVec 64).setWidth env.arch.word.ty.bits = ~~~3 := by
    cases env.arch <;> rfl
  have hle : env.arch.word.ty.bits ≤ 64 := by cases env.arch <;> decide
  rw [← htarget, hmask, Goal.address, BitVec.setWidth_setWidth_of_le _ hle, BitVec.setWidth_eq]

theorem refuses_held {via : Via} : (w.slice 16 3 ≠ 0 ∨
    (via == .ctr && (BranchOptions.decode w.bo).decrement) = true ∨ False) ↔
      Goal.Refuses w (.held via) := by
  simp [Goal.Refuses, BranchOptions.decode]

/-- A branch to a register that is always taken. The red zone behind a return is given up. -/
theorem toRegister_always (hI : I.Scalar) (hlayout : env.layout = env.arch) (via : Via)
    (hu : (BranchOptions.decode w.bo).unconditional = true) :
    Comes env I c (toRegister w via) (Goal.Refuses w (.held via)) fun next flow =>
      (∃ kind, next = .stop kind) ∧
        env.leave I next flow = env.leavesBranch I w true (.held via) c.machine := by
  refine Comes.congr ?_ refuses_held
  unfold toRegister
  simp only [hu, if_true, pure_bind, true_and]
  refine .guard (Lift.reservedZero_refuses w _ _) fun _ => .give rfl ?_
  refine .guard (Lift.invalidIf_refuses w _ _) fun _ => ?_
  refine .listed fun c₁ _ hmachine₁ => ?_
  generalize htarget : Goal.address env I.order w c₁.state (.held via) = target
  rw [← hmachine₁, leavesBranch_always hu htarget]
  refine target_comes hI.toBitwise hlayout htarget fun t c₂ _ hstate₂ hmemory₂ ht => ?_
  refine countDown_comes hI.toModular hlayout fun c₃ _ hstate₃ hmemory₃ => ?_
  rw [counted_always _ hu, hstate₂] at hstate₃
  rw [hmemory₂] at hmemory₃
  have ht' : c₃.Knows I (fun _ => True) t _ := ht.since
  by_cases hzap : via = .lr ∧ (!w.lk) = true ∧ env.abi.zapAtReturn = true
  · have hlk : w.lk = false := by simpa using hzap.2.1
    have hlinked : c₁.state.linked env.arch I.order w env.nia = c₁.state := by
      rw [GuestState.linked, hlk]
      rfl
    simp only [if_pos hzap, hlinked]
    rw [if_neg (by simp [hlk])]
    refine .redzoneHint hI.toModular hlayout ht'.always fun c₄ _ hstate₄ hmemory₄ => ?_
    rw [hstate₃, hmemory₃] at hmemory₄
    rw [← Env.exitTo_eq hmemory₄ (hstate₄.trans hstate₃)]
    exact jump_comes hlayout (Goal.kind_ne_noDecode w (.held via)) ht'.since.always
  · simp only [if_neg hzap]
    refine linked_comes hlayout fun c₄ _ hstate₄ hmemory₄ => ?_
    rw [hstate₃] at hstate₄
    rw [← Env.exitTo_eq (hmemory₄.trans hmemory₃) hstate₄]
    exact jump_comes hlayout (Goal.kind_ne_noDecode w (.held via)) ht'.since.always

/-- A branch to a register that a test decides. -/
theorem toRegister_tested (hI : I.Scalar) (hlayout : env.layout = env.arch) (via : Via)
    (hu : (BranchOptions.decode w.bo).unconditional = false) :
    Comes env I c (toRegister w via) (Goal.Refuses w (.held via)) fun next flow =>
      (∃ kind, next = .stop kind) ∧
        env.leave I next flow = env.leavesBranch I w true (.held via) c.machine := by
  refine Comes.congr ?_ refuses_held
  unfold toRegister
  simp only [hu, if_false, Bool.false_eq_true, false_and, and_false]
  refine .guard (Lift.reservedZero_refuses w _ _) fun _ => .give rfl ?_
  refine .guard (Lift.invalidIf_refuses w _ _) fun _ => ?_
  refine .listed fun c₁ _ hmachine₁ => ?_
  generalize htarget : Goal.address env I.order w c₁.state (.held via) = target
  rw [← hmachine₁, leavesBranch_tested hu htarget]
  refine target_comes hI.toBitwise hlayout htarget fun t c₂ _ hstate₂ hmemory₂ ht => ?_
  refine countDown_comes hI.toModular hlayout fun c₃ _ hstate₃ hmemory₃ => ?_
  rw [hstate₂] at hstate₃
  simp only [map_eq_pure_bind, bind_assoc, pure_bind]
  refine takes_comes hI.toIntegral hlayout hstate₃ fun test c₄ _ hstate₄ hmemory₄ htest => ?_
  refine linked_comes hlayout fun c₅ _ hstate₅ hmemory₅ => ?_
  have hstate : c₅.state =
      (c₁.state.counted env.arch I.order w).linked env.arch I.order w env.nia := by
    rw [hstate₅, hstate₄, hstate₃]
  have hmemory : c₅.memory = c₁.memory := by rw [hmemory₅, hmemory₄, hmemory₃, hmemory₂]
  rw [← Env.exitTo_eq hmemory hstate, ← Env.exitTo_eq hmemory hstate]
  have ht' : c₄.Knows I (fun _ => True) t _ := ht.since
  have ht'' : c₅.Knows I (fun _ => True) t _ := ht'.since
  have hnot : c₅.Has I (.un .not1 _) _ := htest.since.always.un rfl (hI.not1 _)
  refine .exit hlayout hnot fun c₆ _ hmachine₆ => ?_
  refine (jump_comes hlayout (Goal.kind_ne_noDecode w (.held via)) ht''.since.always).mono
    Iff.rfl ?_
  intro next flow hleft
  refine ⟨hleft.1, ?_⟩
  rw [hmachine₆] at hleft
  cases w.takes env.arch I.order c₁.state with
  | true => exact hleft.2
  | false => rfl

theorem toRegister_comes (hI : I.Scalar) (hlayout : env.layout = env.arch) (via : Via) :
    Comes env I c (toRegister w via) (Goal.Refuses w (.held via)) fun next flow =>
      (∃ kind, next = .stop kind) ∧
        env.leave I next flow = env.leavesBranch I w true (.held via) c.machine := by
  cases hu : (BranchOptions.decode w.bo).unconditional with
  | true => exact toRegister_always hI hlayout via hu
  | false => exact toRegister_tested hI hlayout via hu

end Branch

theorem Route.closed_isa207 {pattern : Pattern} {family : Family} (g : Guest) :
    Route.Closed ⟨pattern, [.isa207], family⟩ g ↔
      (Features.resolve g.arch g.info.caps).isa207 = false := by
  rw [closed_iff]
  simp [Gate.isOpen]

theorem Insn.BranchForm.route {options : Bool} {goal : Branch.Goal}
    (hform : w.BranchForm options goal) (g : Guest) :
    ∃ route, Route.find? w = some route ∧ route.family = .branch ∧
      (route.Closed g ↔ goal = .held .tar ∧
        (Features.resolve g.arch g.info.caps).isa207 = false) ∧
      w.opcode ≠ 21 ∧ w.opcode ≠ 30 := by
  cases hform with
  | b hopcode | bc hopcode =>
      exact ⟨_, Route.find?_only (by rw [hopcode]; rfl), rfl, by simp [Route.not_closed g],
        by simp [hopcode]⟩
  | bclr hopcode hxo | bcctr hopcode hxo =>
      obtain ⟨_, hroute⟩ : ∃ pattern, Route.find? w = some ⟨pattern, [], .branch⟩ :=
        Route.find?_branchForm hopcode hxo (by decide)
      exact ⟨_, hroute, rfl, by simp [Route.not_closed g], by simp [hopcode]⟩
  | bctar hopcode hxo =>
      obtain ⟨_, hroute⟩ : ∃ pattern, Route.find? w = some ⟨pattern, [.isa207], .branch⟩ :=
        Route.find?_branchForm hopcode hxo (by decide)
      exact ⟨_, hroute, rfl, by simp [Route.closed_isa207 g], by simp [hopcode]⟩

theorem Branch.lift_comes (hI : I.Scalar) (hlayout : env.layout = env.arch)
    (hresteer : ∀ target, env.mayResteer target = false) {options : Bool} {goal : Goal}
    (hform : w.BranchForm options goal) :
    Comes env I c (lift w) (goal.Refuses w) fun next flow => (∃ kind, next = .stop kind) ∧
      env.leave I next flow = env.leavesBranch I w options goal c.machine := by
  unfold lift
  cases hform with
  | b hopcode =>
      rw [hopcode]
      exact immediate_comes hI.toModular hlayout hresteer
  | bc hopcode =>
      rw [hopcode]
      exact conditional_comes hI.toIntegral hlayout
  | bclr hopcode hxo | bcctr hopcode hxo | bctar hopcode hxo =>
      rw [hopcode, hxo]
      exact toRegister_comes hI hlayout _

/-- A branch goes to its target exactly if its conditions allow it, and to the next instruction
otherwise. It counts and links as its word says, wherever it goes. -/
theorem Guest.branches_leave (g : Guest) {options : Bool} {goal : Branch.Goal}
    (hform : w.BranchForm options goal) (hI : I.Scalar)
    (hresteer : ∀ target, g.mayResteer target = false) :
    g.Performs w I
      ((goal = .held .tar ∧ (Features.resolve g.arch g.info.caps).isa207 = false) ∨ goal.Refuses w)
      fun cia next m out =>
        (∃ kind, next = .stop kind) ∧ out = (g.env cia cia).leavesBranch I w options goal m := by
  obtain ⟨route, hroute, hfamily, hclosed, hopcode⟩ := hform.route g
  refine Guest.performs hroute hopcode _ (or_congr_left hclosed)
    fun env c hlayout henv hnext => ?_
  obtain ⟨cia, blockStart, rfl⟩ := henv
  rw [hfamily]
  exact Branch.lift_comes hI hlayout hresteer hform

/-- A machine with the return address 0x2003 and the count 2. -/
def counting : Machine Interp.Reserved :=
  .start ⟨fun _ => 0, false⟩ fun o =>
    if o = specialOffset .ppc64 .lr + 6 then 0x20
    else if o = specialOffset .ppc64 .lr + 7 then 3
    else if o = specialOffset .ppc64 .ctr + 7 then 2
    else 0

/-- The code of `bdnzlrl` goes to the old return address, which it replaces. -/
theorem Guest.branches_leave_counting :
    ∃ kind ss, (Guest.lift { arch := .ppc64 } ⟨#[0x4E, 0x00, 0x00, 0x21]⟩ 0 0x1000 0x1000
        (.empty 0)).result = .ok ⟨4, .stop kind, none⟩ ∧
      (Guest.lift { arch := .ppc64 } ⟨#[0x4E, 0x00, 0x00, 0x21]⟩ 0 0x1000 0x1000
        (.empty 0)).block.stmts.toList = ss ∧
      (Guest.env { arch := .ppc64 } 0x1000 0x1000).leave (.scalar .big) (.stop kind)
        (runAll (.scalar .big) #[] ss counting) =
          ⟨0x2000, .call, counting.memory,
            ((counting.state.withSpecial .ppc64 .big .ctr 1).withSpecial .ppc64 .big .lr
              0x1004).withAddress .ppc64 .big 0x2000⟩ := by
  have hperforms := Guest.branches_leave { arch := .ppc64 } (w := ⟨0x4E000021⟩)
    (.bclr (by decide) (by decide)) (Interp.scalar_scalar .big) fun _ => rfl
  obtain ⟨next, ss, hresult, hstmts, ⟨kind, rfl⟩, hleft⟩ :=
    hperforms.exists_run (by decide) ⟨#[0x4E, 0x00, 0x00, 0x21]⟩ (by decide)
      (by simp [Branch.Goal.Refuses]; decide) 0x1000 counting
  refine ⟨kind, ss, hresult, hstmts, hleft.trans ?_⟩
  let start : Point Interp.Reserved := ⟨{ stage := .start (.empty 0) }, counting, rfl⟩
  have htarget : Branch.Goal.address (Guest.env { arch := .ppc64 } 0x1000 0x1000)
      (Interp.scalar .big).order ⟨0x4E000021⟩ start.state (.held .lr) = 0x2000 := by
    decide +kernel
  have htakes : Insn.takes ⟨0x4E000021⟩ .ppc64 .big counting.state = true := by decide +kernel
  have hcount : Insn.counted ⟨0x4E000021⟩ (counting.state.special .ppc64 .big .ctr) = 1 := by
    decide +kernel
  have hcounted : counting.state.counted .ppc64 .big ⟨0x4E000021⟩ =
      counting.state.withSpecial .ppc64 .big .ctr 1 := by
    rw [GuestState.counted, if_neg (by decide)]
    exact congrArg _ hcount
  have hlinked (σ : GuestState) : σ.linked .ppc64 .big ⟨0x4E000021⟩ 0x1004 =
      σ.withSpecial .ppc64 .big .lr 0x1004 := if_pos (by decide)
  refine (Branch.leavesBranch_tested (c := start) (by decide) htarget).trans ?_
  refine (if_pos htakes).trans ?_
  rw [← hlinked, ← hcounted]
  rfl

end PowerLift
