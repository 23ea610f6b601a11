import PowerLift.Proofs.ConditionRegister
import PowerLift.Proofs.Routes

/-!
# Instructions on the condition register

Instructions combine bits of the condition register, copy its fields and move it from and to general
registers. Each does to the bytes of the record what it would do to a plain word.
-/

namespace PowerLift

open CrWord (bit withBit withFields)
open Lift (Does exec getCrBit getCrField getCr putCrBit putCrField instruction)
open PowerLift.Expr (un bin)

variable {M : Type} {I : Interp M} {env : Env} {p : Progress} {w : Insn}

/-- Instructions on the condition register that every processor has. -/
def Insn.IsCondition (w : Insn) : Prop :=
  w.opcode = 19 ∧ w.xo10 ∈ [0, 257, 129, 289, 225, 33, 449, 417, 193] ∨
    w.opcode = 31 ∧ w.xo10 ∈ [19, 144]

theorem Route.find?_condition (h : w.IsCondition) :
    ∃ pattern, Route.find? w = some ⟨pattern, [], .conditionRegister⟩ := by
  rcases h with ⟨hopcode, hxo⟩ | ⟨hopcode, hxo⟩
  · have hroutes : ∀ xo ∈ [0, 257, 129, 289, 225, 33, 449, 417, 193],
        (ofBranchXo10 xo).map (fun r => (r.gates, r.family)) = some ([], .conditionRegister) := by
      decide
    exact find?_branchForm hopcode rfl (hroutes _ hxo)
  · exact find?_forms hopcode (by decide) hxo

theorem instruction_condition (h : w.IsCondition) {x : Lift Unit}
    (hx : ConditionRegister.lift w = x) : instruction w = read >>= fun _ => x := by
  obtain ⟨pattern, hroute⟩ := Route.find?_condition h
  unfold instruction
  rw [hroute, ← hx]
  rfl

section

variable (hp : p.stage.Level) (what : String)

include hp

theorem reservedClear_still {bit : Bool} (hbit : bit = false) :
    Does env I p (Lift.reservedClear w bit what) () p id := by
  subst hbit
  exact .still hp rfl

theorem reservedZero_still {field : Nat} (hfield : field = 0) :
    Does env I p (Lift.reservedZero w field what) () p id := by
  subst hfield
  exact .still hp rfl

theorem invalidIf_still {bad : Bool} (hbad : bad = false) :
    Does env I p (Lift.invalidIf w bad what) () p id := by
  subst hbad
  exact .still hp rfl

end

/-! ## Operations on bits -/

/-- The operation on two condition bits that an extended opcode selects. -/
def Insn.bitLogic? : Nat → Option (Bool → Bool → Bool)
  | 257 => some fun a b => a && b
  | 129 => some fun a b => a && !b
  | 289 => some fun a b => a == b
  | 225 => some fun a b => !(a && b)
  | 33 => some fun a b => !(a || b)
  | 449 => some fun a b => a || b
  | 417 => some fun a b => a || !b
  | 193 => some fun a b => a ^^ b
  | _ => none

/-- The instructions that combine two condition bits, with their operation. -/
structure Insn.CombinesBits (w : Insn) (f : Bool → Bool → Bool) : Prop where
  opcode : w.opcode = 19
  operation : bitLogic? w.xo10 = some f
  record : w.record = false

theorem Insn.bitLogic?_mem {xo : Nat} {f : Bool → Bool → Bool} (h : bitLogic? xo = some f) :
    xo ∈ [257, 129, 289, 225, 33, 449, 417, 193] := by
  unfold bitLogic? at h
  split at h <;> simp_all

theorem Insn.CombinesBits.instruction_eq {f : Bool → Bool → Bool} (hw : w.CombinesBits f) :
    instruction w = read >>= fun _ => ConditionRegister.bits w := by
  have hmem := bitLogic?_mem hw.operation
  refine instruction_condition (.inl ⟨hw.opcode, List.mem_cons_of_mem 0 hmem⟩) ?_
  unfold ConditionRegister.lift
  rw [hw.opcode]
  split <;> simp_all

/-- A word whose lowest bit is known in the machines given. -/
structure LowBit (I : Interp M) (s : Stage) (R : Machine M → Prop) (e : Expr)
    (b : Machine M → Bool) : Prop where
  check : s.check e = .ok .i32
  eval : ∀ m, R m → ∃ x, e.eval I m = .i32 x ∧ x.getLsbD 0 = b m

namespace LowBit

variable {s : Stage} {R : Machine M → Prop} {a e : Expr} {b c : Machine M → Bool}

/-- An operator that combines words bit by bit. -/
theorem binary (ha : LowBit I s R a b) (he : LowBit I s R e c) {op : Op}
    (hop : op.signature = .binary .i32 .i32 .i32) {g : BitVec 32 → BitVec 32 → BitVec 32}
    (hg : ∀ {m : Machine M} {x y : BitVec 32}, a.eval I m = .i32 x → e.eval I m = .i32 y →
      (bin op a e).eval I m = .i32 (g x y)) {f : Bool → Bool → Bool}
    (hf : ∀ x y, (g x y).getLsbD 0 = f (x.getLsbD 0) (y.getLsbD 0)) :
    LowBit I s R (bin op a e) fun m => f (b m) (c m) := by
  refine ⟨Stage.check_bin hop ha.check he.check, fun m hm => ?_⟩
  obtain ⟨x, hx, hb⟩ := ha.eval m hm
  obtain ⟨y, hy, hc⟩ := he.eval m hm
  exact ⟨_, hg hx hy, by rw [hf, hb, hc]⟩

theorem and (hI : I.Bitwise) (ha : LowBit I s R a b) (he : LowBit I s R e c) :
    LowBit I s R (bin .and32 a e) fun m => b m && c m :=
  ha.binary he rfl hI.eval_and32 fun _ _ => BitVec.getLsbD_and

theorem or (hI : I.Bitwise) (ha : LowBit I s R a b) (he : LowBit I s R e c) :
    LowBit I s R (bin .or32 a e) fun m => b m || c m :=
  ha.binary he rfl hI.eval_or32 fun _ _ => BitVec.getLsbD_or

theorem xor (hI : I.Bitwise) (ha : LowBit I s R a b) (he : LowBit I s R e c) :
    LowBit I s R (bin .xor32 a e) fun m => b m ^^ c m :=
  ha.binary he rfl hI.eval_xor32 fun _ _ => BitVec.getLsbD_xor

theorem not (hI : I.Bitwise) (ha : LowBit I s R a b) :
    LowBit I s R (un (.not .w32) a) fun m => !b m := by
  refine ⟨Stage.check_un rfl ha.check, fun m hm => ?_⟩
  obtain ⟨x, hx, hb⟩ := ha.eval m hm
  exact ⟨_, hI.eval_not32 hx, by simp [← hb]⟩

/-- The emitted operation is the one on bits. -/
theorem bitOperation (hI : I.Bitwise) (ha : LowBit I s R a b) (he : LowBit I s R e c) {xo : Nat}
    {f : Bool → Bool → Bool} (hf : Insn.bitLogic? xo = some f) :
    ∃ name r, ConditionRegister.bitOperation? xo a e = some (name, r) ∧
      LowBit I s R r fun m => f (b m) (c m) := by
  have hequal : ∀ x y : Bool, (!(x ^^ y)) = (x == y) := by decide
  unfold Insn.bitLogic? at hf
  split at hf <;> cases hf
  · exact ⟨_, _, rfl, ha.and hI he⟩
  · exact ⟨_, _, rfl, ha.and hI (he.not hI)⟩
  · exact ⟨_, _, rfl, by simpa only [hequal] using (ha.xor hI he).not hI⟩
  · exact ⟨_, _, rfl, (ha.and hI he).not hI⟩
  · exact ⟨_, _, rfl, (ha.or hI he).not hI⟩
  · exact ⟨_, _, rfl, ha.or hI he⟩
  · exact ⟨_, _, rfl, ha.or hI (he.not hI)⟩
  · exact ⟨_, _, rfl, ha.xor hI he⟩

theorem operand (h : LowBit I s R e b) : Operand I s R e fun m => (e.eval I m).word := by
  refine ⟨h.check, fun m hm => ?_⟩
  obtain ⟨x, hx, -⟩ := h.eval m hm
  rw [hx, Value.word_i32]

theorem changes (hI : I.Bitwise) (hp : p.stage.Level) (h : LowBit I p.stage R e b) {i : Nat}
    (hi : i < 32) : Lift.ChangesCr env I p R (putCrBit i e) (· = GuestState.crByte env.layout i)
      fun m => withBit (m.state.cr env.layout) i (b m) := by
  refine (putCrBit_changes hI hp hi h.operand).mono (fun m hm => ⟨hm, ?_⟩) fun _ ho => ho
  obtain ⟨x, hx, hb⟩ := h.eval m hm
  rw [hx, Value.word_i32, hb]

end LowBit

/-- A temporary that holds a condition bit. -/
def HoldsBit (arch : Arch) (i t : Nat) (m : Machine M) : Prop :=
  m.temps t = .i32 ((BitVec.ofBool (bit (m.state.cr arch) i)).setWidth 32)

theorem HoldsBit.lowBit {s : Stage} {i t : Nat} (ht : s.check (.tmp t) = .ok .i32)
    {R : Machine M → Prop} (hR : ∀ m, R m → HoldsBit env.layout i t m) :
    LowBit I s R (.tmp t) fun m => bit (m.state.cr env.layout) i := by
  refine ⟨ht, fun m hm => ⟨_, hR m hm, ?_⟩⟩
  simp

/-- A condition bit is read and held. -/
theorem holdBit_changes (hI : I.Bitwise) (hp : p.stage.Level) {i : Nat} (hi : i < 32)
    {f : Expr → Lift Unit} {R : Machine M → Prop} {touched : Nat → Prop}
    {result : Machine M → BitVec 32}
    (hf : ∀ p' : Progress, p.stage.Follows p'.stage → p.stage.fresh < p'.stage.fresh →
      p'.stage.check (.tmp p.stage.fresh) = .ok .i32 →
      Lift.ChangesCr env I p' (fun m => R m ∧ HoldsBit env.layout i p.stage.fresh m)
        (f (.tmp p.stage.fresh)) touched result)
    (hR : ∀ m v, R m → R (m.bind p.stage.fresh v))
    (hresult : ∀ m v, result (m.bind p.stage.fresh v) = result m) :
    Lift.ChangesCr env I p R (do f (← Lift.bind (← getCrBit i))) touched result := by
  obtain ⟨e, hexec, he, heval⟩ := getCrBit_yields (p := p) hI hi
  have hbind : Does env I p (Lift.bind e) _ _ _ := Lift.bind_does hp he
  have hlt : p.stage.fresh < (p.stage.withTemp e .i32).fresh := Stage.fresh_lt_withTemp e .i32
  refine .after (.still hp hexec) (.bound hp he
    (hf _ hbind.follows hlt (Stage.check_fresh hp e .i32)) fun m hm => ?_)
  refine ⟨⟨hR m _ hm, ?_⟩, hresult m _⟩
  rw [heval m]
  simp [HoldsBit, Machine.bind]

/-- Bits are combined as a plain word has them. -/
theorem Insn.CombinesBits.changes (hI : I.Bitwise) (hp : p.stage.Level) {f : Bool → Bool → Bool}
    (hw : w.CombinesBits f) :
    Lift.ChangesCr env I p (fun _ => True) (instruction w)
      (· = GuestState.crByte env.layout w.rd) fun m => withBit (m.state.cr env.layout) w.rd
        (f (bit (m.state.cr env.layout) w.ra) (bit (m.state.cr env.layout) w.rb)) := by
  rw [hw.instruction_eq]
  refine .after (.still hp rfl) (.after (reservedClear_still hp _ hw.record) ?_)
  -- Both bits are held before the target is written, which may be one of them.
  refine holdBit_changes hI hp w.ra_lt (fun p₁ h₁ hlt₁ ht => ?_) (fun _ _ h => h) fun _ _ => rfl
  refine holdBit_changes hI h₁.level w.rb_lt (fun p₂ h₂ _ hu => ?_) (fun m v hm => ?_)
    fun _ _ => rfl
  · let held : Machine M → Prop := fun m =>
      (True ∧ HoldsBit env.layout w.ra p.stage.fresh m) ∧ HoldsBit env.layout w.rb p₁.stage.fresh m
    have ha : LowBit I p₂.stage held (.tmp p.stage.fresh) _ :=
      HoldsBit.lowBit (h₂.check _ _ ht) fun m hm => hm.1.2
    have hb : LowBit I p₂.stage held (.tmp p₁.stage.fresh) _ :=
      HoldsBit.lowBit hu fun m hm => hm.2
    obtain ⟨name, e, hop, he⟩ := ha.bitOperation hI hb hw.operation
    rw [hop]
    exact .listed h₂.level fun p₃ h₃ => LowBit.changes hI (h₃ ▸ h₂.level) (h₃ ▸ he) w.rd_lt
  · have hne : p.stage.fresh ≠ p₁.stage.fresh := Nat.ne_of_lt hlt₁
    simpa [HoldsBit, Machine.bind, hne] using hm

/-! ## Copies of fields -/

/-- The instruction that copies a condition field. -/
structure Insn.CopiesField (w : Insn) : Prop where
  opcode : w.opcode = 19
  xo10 : w.xo10 = 0
  low : w.slice 9 2 = 0
  high : w.slice 14 7 = 0
  record : w.record = false

theorem Insn.CopiesField.instruction_eq (hw : w.CopiesField) :
    instruction w = read >>= fun _ => ConditionRegister.moveField w := by
  refine instruction_condition (.inl ⟨hw.opcode, by simp [hw.xo10]⟩) ?_
  simp only [ConditionRegister.lift, hw.opcode, hw.xo10]

theorem Insn.CopiesField.changes (hI : I.Bitwise) (hp : p.stage.Level) (hw : w.CopiesField) :
    Lift.ChangesCr env I p (fun _ => True) (instruction w) (Layout.InField env.layout w.crfd)
      fun m => CrWord.withField (m.state.cr env.layout) w.crfd
        (CrWord.field (m.state.cr env.layout) w.crfs) := by
  rw [hw.instruction_eq]
  refine .after (.still hp rfl) (.after (reservedZero_still hp _ hw.low)
    (.after (reservedZero_still hp _ hw.high) (.after (reservedClear_still hp _ hw.record)
    (.listed hp fun p' hp' => ?_))))
  have hlevel : p'.stage.Level := hp' ▸ hp
  obtain ⟨e, hexec, he, heval⟩ := getCrField_yields (p := p') hI w.crfs_lt
  refine .after (.still hlevel hexec) ?_
  refine (putCrField_changes hI hlevel w.crfd_lt ⟨he, fun m _ => heval m⟩).mono
    (fun m _ => ⟨trivial, ?_⟩) fun _ ho => ho
  rw [BitVec.setWidth_setWidth_of_le _ (by decide), BitVec.setWidth_eq]

/-! ## Moves from general registers -/

theorem maskField_or (x y : BitVec 64) (f : Nat) :
    maskField (x ||| y) f = (maskField x f || maskField y f) := by
  rw [Bool.eq_iff_iff]
  simp [maskField, BitVec.ushiftRight_or_distrib, BitVec.and_or_distrib_right,
    BitVec.or_eq_zero_iff, -not_and, Classical.not_and_iff_not_or_not]

theorem maskField_nibble : ∀ g < 8, ∀ f < 8,
    maskField ((0xF <<< (28 - 4 * g) : Nat) : BitVec 64) f = decide (f = g) := by
  decide

theorem maskField_foldl (mask : Nat) {f : Nat} (hf : f < 8) {gs : List Nat} (hgs : ∀ g ∈ gs, g < 8)
    (acc : BitVec 64) :
    maskField (gs.foldl (fun acc g => if mask.testBit (7 - g) then
      acc ||| ((0xF <<< (28 - 4 * g) : Nat) : BitVec 64) else acc) acc) f =
        (maskField acc f || (decide (f ∈ gs) && mask.testBit (7 - f))) := by
  induction gs generalizing acc with
  | nil => simp
  | cons g gs ih =>
      obtain ⟨hg, hgs⟩ := List.forall_mem_cons.mp hgs
      rw [List.foldl_cons, ih hgs]
      by_cases hbit : mask.testBit (7 - g) = true
      · rw [if_pos hbit, maskField_or, maskField_nibble g hg f hf]
        by_cases heq : f = g <;> simp [heq, hbit]
      · rw [if_neg hbit]
        by_cases heq : f = g <;> simp [heq, hbit]

/-- The fields that an eight-bit mask selects. -/
theorem maskField_fieldMask (mask : Nat) {f : Nat} (hf : f < 8) :
    maskField (ConditionRegister.fieldMask mask) f = mask.testBit (7 - f) := by
  have hzero : maskField 0 f = false := by simp [maskField]
  refine (maskField_foldl mask hf (fun g hg => List.mem_range.mp hg) 0).trans ?_
  rw [hzero, Bool.false_or, decide_eq_true (List.mem_range.mpr hf), Bool.true_and]

/-- The low word of a general register. -/
def GuestState.gprWord (arch : Arch) (order : ByteOrder) (σ : GuestState) (i : Nat) : BitVec 32 :=
  (σ.read order (i * arch.wordBytes) arch.wordTy).setWidth 32

theorem Layout.gpr_eq (arch : Arch) {i : Nat} (hi : i < 32) :
    locate arch (.gpr i) = .ok ⟨i * arch.wordBytes, arch.wordTy⟩ := by
  simp [locate, offset, hi, Except.map, Slot.ty]

theorem low32_operand (hI : I.Bitwise) (hlayout : env.layout = env.arch) (i : Nat) (s : Stage)
    (R : Machine M → Prop) :
    Operand I s R (env.low32 (.get (i * env.layout.wordBytes) env.layout.wordTy))
      fun m => m.state.gprWord env.arch I.order i := by
  rw [hlayout]
  cases harch : env.arch with
  | ppc32 =>
      simp only [Env.low32, harch]
      exact ⟨rfl, fun m _ => congrArg Value.i32 (BitVec.setWidth_eq _).symm⟩
  | ppc64 =>
      simp only [Env.low32, harch]
      refine ⟨Stage.check_un rfl rfl, fun m _ => ?_⟩
      have hget : (Expr.get (i * Arch.ppc64.wordBytes) .i64).eval I m = ⟨.i64, _⟩ := rfl
      exact hI.eval_cast rfl rfl hget

theorem singleField?_eq : ∀ f < 8, ConditionRegister.singleField? (0x80 >>> f) = some f := by
  decide

/-- The instructions that move fields from a general register: those of a mask, or a single one. -/
structure Insn.FillsFields (w : Insn) : Prop where
  opcode : w.opcode = 31
  xo10 : w.xo10 = 144
  last : w.slice 20 1 = 0
  single : w.slice 11 1 = 1 → ∃ f < 8, w.crm = 0x80 >>> f
  record : w.record = false

theorem Insn.FillsFields.instruction_eq (hw : w.FillsFields) :
    instruction w = read >>= fun _ => ConditionRegister.write w := by
  refine instruction_condition (.inr ⟨hw.opcode, by simp [hw.xo10]⟩) ?_
  simp only [ConditionRegister.lift, hw.opcode, hw.xo10]

/-- The fields that an instruction selects. -/
def Insn.selected (w : Insn) (f : Nat) : Bool := w.crm.testBit (7 - f)

theorem putSelected_changes (hI : I.Bitwise) (hlayout : env.layout = env.arch)
    (hp : p.stage.Level) :
    Lift.ChangesCr env I p (fun _ => True)
      (do Lift.putCrMasked (← Lift.low32 (← Lift.getGpr w.rs)) (ConditionRegister.fieldMask w.crm))
      (Layout.InFields env.layout w.selected) fun m =>
        withFields (m.state.cr env.layout) w.selected (m.state.gprWord env.arch I.order w.rs) := by
  have hmask : ∀ f < 8, maskField (ConditionRegister.fieldMask w.crm) f = w.selected f :=
    fun f hf => maskField_fieldMask w.crm hf
  refine .after (.still hp (Lift.exec_getSlot (Layout.gpr_eq env.layout w.rd_lt))) ?_
  refine .after (.still hp rfl) ?_
  refine (putCrMasked_changes hI hp _ (low32_operand hI hlayout w.rs _ _)).mono
    (fun m _ => ⟨trivial, CrWord.withFields_congr hmask⟩) ?_
  rintro o ⟨f, hf, hchosen, ho⟩
  exact ⟨f, hf, (hmask f hf).symm.trans hchosen, ho⟩

theorem Insn.FillsFields.changes (hI : I.Bitwise) (hlayout : env.layout = env.arch)
    (hp : p.stage.Level) (hw : w.FillsFields) :
    Lift.ChangesCr env I p (fun _ => True) (instruction w)
      (Layout.InFields env.layout w.selected) fun m =>
        withFields (m.state.cr env.layout) w.selected (m.state.gprWord env.arch I.order w.rs) := by
  rw [hw.instruction_eq]
  unfold ConditionRegister.write
  refine .after (.still hp rfl) (.after (reservedClear_still hp _ hw.record)
    (.after (reservedZero_still hp _ hw.last) ?_))
  by_cases hone : w.slice 11 1 = 1
  · obtain ⟨f, hf, hcrm⟩ := hw.single hone
    have hsome : (ConditionRegister.singleField? w.crm).isNone = false := by
      rw [hcrm, singleField?_eq f hf]
      rfl
    simp only [hone, if_true]
    exact .after (invalidIf_still hp _ hsome)
      (.listed hp fun p' hp' => putSelected_changes hI hlayout (hp' ▸ hp))
  · simp only [hone, if_false]
    exact .listed hp fun p' hp' => putSelected_changes hI hlayout (hp' ▸ hp)

/-! ## Moves to general registers -/

/-- The machine `m'` is `m` with a word in general register `i`: of memory and of the temporaries
below `n` nothing changes. -/
structure GprChanged (arch : Arch) (order : ByteOrder) (n i : Nat) (x : BitVec 32)
    (m m' : Machine M) : Prop where
  state : m'.state = m.state.write order (i * arch.wordBytes) ⟨arch.wordTy, x.setWidth _⟩
  memory : m'.memory = m.memory
  temps : ∀ t < n, m'.temps t = m.temps t

/-- A word widened to a general register. -/
def wide (arch : Arch) (e : Expr) : Expr := if arch.is64 then un (.cast .zext32to64) e else e

theorem exec_widen {t : Nat} (ht : p.stage.check (.tmp t) = .ok .i32) :
    exec env p (Lift.widen (.tmp t) false) = (.ok (wide env.arch (.tmp t)), p) := by
  have htype : exec env p (Lift.typeOf (.tmp t)) = (.ok .i32, p) := by
    rw [Lift.typeOf, Lift.exec_bind, Lift.exec_get]
    change exec env p (Lift.ofExcept (p.stage.tempTy t)) = _
    rw [show p.stage.tempTy t = _ from (Stage.check_eq_ok.mp ht).2]
    rfl
  have hword : exec env p Lift.wordTy = (.ok env.arch.wordTy, p) := rfl
  unfold Lift.widen
  rw [Lift.exec_bind, htype]
  simp only
  rw [Lift.exec_bind, hword]
  cases env.arch <;> rfl

theorem wide_eval (hI : I.Bitwise) (arch : Arch) {e : Expr} {m : Machine M} {x : BitVec 32}
    (he : e.eval I m = .i32 x) : (wide arch e).eval I m = ⟨arch.wordTy, x.setWidth _⟩ := by
  cases arch with
  | ppc32 => exact he.trans (congrArg Value.i32 (BitVec.setWidth_eq _).symm)
  | ppc64 => exact hI.eval_cast rfl rfl he

theorem wide_check {s : Stage} {e : Expr} (arch : Arch) (he : s.check e = .ok .i32) :
    s.check (wide arch e) = .ok arch.wordTy := by
  cases arch with
  | ppc32 => exact he
  | ppc64 => exact Stage.check_un rfl he

/-- Behind `p`, the lifting `x` succeeds, and its code leaves a word in general register `i`. -/
def Lift.Moves (env : Env) (I : Interp M) (p : Progress) (x : Lift Unit) (i : Nat)
    (value : GuestState → BitVec 32) : Prop :=
  ∃ p' F, Does env I p x () p' F ∧
    ∀ m, GprChanged env.arch I.order p.stage.fresh i (value m.state) m (F m)

theorem Lift.Moves.after {α : Type} {x : Lift α} {a : α} {f : α → Lift Unit} {p₁ : Progress}
    {i : Nat} {value : GuestState → BitVec 32} (hx : Does env I p x a p₁ id)
    (hf : Lift.Moves env I p₁ (f a) i value) : Lift.Moves env I p (x >>= f) i value := by
  obtain ⟨p', F, hdoes, hchanged⟩ := hf
  refine ⟨p', F, hx.andThen hdoes, fun m => ?_⟩
  have hle := hx.follows.fresh_le
  exact ⟨(hchanged m).state, (hchanged m).memory, fun t ht => (hchanged m).temps t (by omega)⟩

theorem Lift.Moves.listed {line : String} {x : Lift Unit} {i : Nat}
    {value : GuestState → BitVec 32} (hp : p.stage.Level)
    (hx : ∀ p' : Progress, p'.stage = p.stage → Lift.Moves env I p' x i value) :
    Lift.Moves env I p (Lift.listed line >>= fun _ => x) i value :=
  .after (listed_does hp line) (hx _ rfl)

/-- A word is widened and moved. -/
theorem putWord_moves (hI : I.Bitwise) (hp : p.stage.Level) (hlayout : env.layout = env.arch)
    {i : Nat} (hi : i < 32) {e : Expr} (he : p.stage.check e = .ok .i32)
    {value : GuestState → BitVec 32} (heval : ∀ m : Machine M, e.eval I m = .i32 (value m.state)) :
    Lift.Moves env I p (do Lift.putGpr i (← Lift.widen (← Lift.bind e) false)) i value := by
  have hbind : Does env I p (Lift.bind e) _ _ _ := Lift.bind_does hp he
  have htemp := Stage.check_fresh hp e .i32
  have hwiden : Does env I _ (Lift.widen _ false) _ _ _ :=
    .still hbind.follows.level (exec_widen htemp)
  have hplace : Layout.locate env.layout (.gpr i) =
      .ok ⟨i * env.arch.wordBytes, env.arch.wordTy⟩ := hlayout ▸ Layout.gpr_eq env.layout hi
  have hput : Does env I _ (Lift.putSlot (.gpr i) _) _ _ _ :=
    Lift.putSlot_does hbind.follows.level hplace (wide_check env.arch htemp)
  refine ⟨_, _, hbind.andThen (hwiden.andThen hput), fun m => ?_⟩
  let bound := m.bind p.stage.fresh (.i32 (value m.state))
  have hvalue : (wide env.arch (.tmp p.stage.fresh)).eval I bound =
      ⟨env.arch.wordTy, (value m.state).setWidth _⟩ := by
    refine wide_eval hI env.arch ?_
    simp [Expr.eval, bound, Machine.bind]
  simp only [Function.comp, heval m, id]
  rw [show Expr.eval I bound _ = _ from hvalue]
  refine ⟨rfl, rfl, fun t ht => ?_⟩
  have hne : t ≠ p.stage.fresh := Nat.ne_of_lt ht
  simp [Machine.bind, hne]

/-- The instructions that move the condition register, or a field of it, to a general register. -/
structure Insn.IsCrRead (w : Insn) : Prop where
  opcode : w.opcode = 31
  xo10 : w.xo10 = 19
  last : w.slice 20 1 = 0
  record : w.record = false

/-- What such an instruction moves: all, or a field in its place. -/
inductive Insn.ReadsCr (w : Insn) : (BitVec 32 → BitVec 32) → Prop where
  | whole (hw : w.IsCrRead) (hform : w.slice 11 1 = 0) (hmask : w.slice 12 8 = 0) : ReadsCr w id
  | single (hw : w.IsCrRead) (hform : w.slice 11 1 = 1) (f : Nat) (hf : f < 8)
    (hmask : w.crm = 0x80 >>> f) :
    ReadsCr w fun x => (CrWord.field x f).setWidth 32 <<< (28 - 4 * f)

theorem Insn.IsCrRead.instruction_eq (hw : w.IsCrRead) :
    instruction w = read >>= fun _ => ConditionRegister.read w := by
  refine instruction_condition (.inr ⟨hw.opcode, by simp [hw.xo10]⟩) ?_
  simp only [ConditionRegister.lift, hw.opcode, hw.xo10]

theorem Insn.ReadsCr.moves (hI : I.Bitwise) (hlayout : env.layout = env.arch) (hp : p.stage.Level)
    {value : BitVec 32 → BitVec 32} (hw : w.ReadsCr value) :
    Lift.Moves env I p (instruction w) w.rd fun σ => value (σ.cr env.layout) := by
  have hread : w.IsCrRead := by cases hw <;> assumption
  obtain ⟨e, hexec, he, heval⟩ := getCr_yields (p := p) hI
  rw [hread.instruction_eq]
  unfold ConditionRegister.read
  refine .after (.still hp rfl) (.after (reservedClear_still hp _ hread.record)
    (.after (reservedZero_still hp _ hread.last) (.after (.still hp hexec) ?_)))
  cases hw with
  | whole _ hform hmask =>
      simp only [hform]
      refine .after (reservedZero_still hp _ hmask) (.listed hp fun p' hp' => ?_)
      have hlevel : p'.stage.Level := hp' ▸ hp
      exact .after (.still hlevel rfl) (putWord_moves hI hlevel hlayout w.rd_lt (hp' ▸ he) heval)
  | single _ hform f hf hmask =>
      simp only [hform, hmask, singleField?_eq f hf]
      refine .listed hp fun p' hp' => ?_
      have hlevel : p'.stage.Level := hp' ▸ hp
      refine .after (.still hlevel rfl) ?_
      refine putWord_moves hI hlevel hlayout w.rd_lt
        (Stage.check_bin rfl (hp' ▸ he) rfl) fun m => ?_
      refine (hI.eval_and32 (heval m) rfl).trans (congrArg Value.i32 ?_)
      exact CrWord.and_nibble hf _

end PowerLift
