import PowerLift.Proofs.Elements
import PowerLift.Proofs.SpecialMoves
import PowerLift.Proofs.StatusRegister

/-!
# Moves of the floating-point status register

Five instructions write the status register under a mask or read it, and a sixth copies one of its
fields to a condition field. Any sequence of them does what it does to one register of 64 bits of
which some are kept.
-/

namespace PowerLift

open CrWord (field withField)
open Layout (specialOffset crBase InField InFpr)
open Lift (exec)
open Point (Knows Has Step Since)
open PowerLift.Expr (un bin)

variable {M : Type} {I : Interp M} {env : Env} {c : Point M} {w : Insn}

/-! ## Condition fields -/

namespace GuestState

variable {arch : Arch} {σ σ' : GuestState} {f o : Nat}

theorem withCrBytes_apply (ho : ¬InField arch f o) (hi lo : BitVec 8) :
    σ.withCrBytes arch f hi lo o = σ o := by
  obtain ⟨hhi, hlo⟩ := not_or.mp ho
  simp only [withCrBytes, hhi, hlo, if_false]

theorem cr_withCrBytes (hf : f < 8) (hi lo : BitVec 8) : (σ.withCrBytes arch f hi lo).cr arch =
    withField (σ.cr arch) f (((hi &&& 0xE) ||| (lo &&& 1)).setWidth 4) := by
  refine cr_eq_withField hf ?_ fun g hg => ?_
  · rw [crField_withCrBytes, if_pos rfl]
  · rw [crField_withCrBytes, if_neg hg]

/-- The condition register is read from its bytes. -/
theorem cr_congr (h : ∀ o, crBase arch ≤ o → σ' o = σ o) : σ'.cr arch = σ.cr arch := by
  unfold cr
  congr 1
  funext f
  simp only [crField, h (crBase arch + 2 * f) (by omega), h (crBase arch + 2 * f + 1) (by omega)]

theorem crBase_le (ho : InField arch f o) : crBase arch ≤ o := by
  unfold InField at ho
  omega

end GuestState

/-! ## Instructions -/

/-- An instruction that moves to or from the status register. -/
inductive StatusOp where
  /-- The register comes into a floating-point register. -/
  | read
  /-- A field of the register comes into a condition field. -/
  | copy
  /-- Fields are taken from a floating-point register. -/
  | write
  /-- A field is taken from the instruction. -/
  | immediate
  /-- A bit is set or cleared. -/
  | bit (set : Bool)
  deriving DecidableEq

/-- The extended opcode. -/
def StatusOp.xo10 : StatusOp → Nat
  | read => 583
  | copy => 64
  | write => 711
  | immediate => 134
  | bit set => if set then 38 else 70

/-- The words that move to or from the status register. -/
structure Insn.StatusForm (w : Insn) (op : StatusOp) : Prop where
  opcode : w.opcode = 63
  xo10 : w.xo10 = op.xo10

namespace StatusOp

/-- Whether a field that must be zero is not. -/
def Reserved (w : Insn) : StatusOp → Prop
  | read | bit _ => w.ra ≠ 0 ∨ w.rb ≠ 0
  | copy => w.slice 9 2 ≠ 0 ∨ w.slice 14 2 ≠ 0 ∨ w.rb ≠ 0 ∨ w.record = true
  | write => False
  | immediate => w.slice 9 6 ≠ 0 ∨ w.slice 20 1 ≠ 0

/-- The bits that are written. Fields 0 to 7 are the upper half of the register and belong to a one
in bit 15 of the word. -/
def mask (w : Insn) : StatusOp → BitVec 64
  | read | copy => 0
  | write =>
      if w.slice 6 1 = 1 then .allOnes 64
      else chosenFields fun k =>
        k / 8 = 1 - w.slice 15 1 ∧ w.slice (7 + k % 8) 1 = 1
  | immediate => chosenFields fun k => k = w.crfd + 8 * (1 - w.slice 15 1)
  | bit _ => .twoPow 64 (63 - (32 + w.rd))

/-- The value from which they are taken: bits of a floating-point register, four bits in every
field, or the same bit everywhere. -/
def value (w : Insn) (frb : BitVec 64) : StatusOp → BitVec 64
  | read | copy => 0
  | write => frb
  | immediate => CrWord.ofFields (fun _ => .ofNat 4 (w.slice 16 4)) 16
  | bit set => if set then .allOnes 64 else 0

end StatusOp

/-! ## One register of 64 bits -/

/-- The registers with which the instructions deal. -/
structure StatusFile where
  fpscr : BitVec 64
  fpr : Fin 32 → BitVec 64
  cr : BitVec 32

namespace StatusFile

/-- What an instruction does to the registers. The status register is merged with the value under
the mask, and cut to the bits that are kept. -/
def step (file : StatusFile) (w : Insn) (op : StatusOp) : StatusFile where
  fpscr := mergeBits (op.mask w) file.fpscr (op.value w (file.fpr (.ofNat 32 w.rb))) &&&
    GuestState.statusBits
  fpr := if op = .read then Function.update file.fpr (.ofNat 32 w.rd) file.fpscr else file.fpr
  cr :=
    if op = .copy then withField file.cr w.crfd (field (file.fpscr.setWidth 32) w.crfs)
    else if w.record then withField file.cr 1 0 else file.cr

/-- What a word does; one that is not among the instructions does nothing. -/
def next (file : StatusFile) (w : Insn) : StatusFile :=
  if w.opcode = 63 then
    ([.read, .copy, .write, .immediate, .bit true, .bit false].find? (w.xo10 == ·.xo10)).elim file
      (file.step w)
  else file

theorem next_eq (file : StatusFile) {op : StatusOp} (hform : w.StatusForm op) :
    file.next w = file.step w op := by
  rw [next, if_pos hform.opcode, hform.xo10]
  cases op with
  | bit set => cases set <;> rfl
  | _ => rfl

/-- The registers of a state. -/
def of (arch : Arch) (host order : ByteOrder) (σ : GuestState) : StatusFile where
  fpscr := σ.fpscr arch
  fpr i := σ.fpr arch host order i
  cr := σ.cr arch

end StatusFile

/-! ## The state behind an instruction -/

/-- The state with condition field 1 cleared, where the word asks for it. -/
def GuestState.recorded (arch : Arch) (w : Insn) (σ : GuestState) : GuestState :=
  if w.record then σ.withCrBytes arch 1 0 0 else σ

namespace StatusOp

variable {arch : Arch} {host order : ByteOrder} {σ : GuestState} {op : StatusOp}

/-- The state in which an instruction leaves another. -/
def after (arch : Arch) (host order : ByteOrder) (w : Insn) (σ : GuestState) :
    StatusOp → GuestState
  | read => (σ.withFpr arch host order w.rd (σ.fpscr arch)).recorded arch w
  | copy =>
      let nibble := (σ.fpscr arch >>> (4 * (7 - w.crfs))).setWidth 32 &&& 0xF
      σ.withCrBytes arch w.crfd ((nibble &&& 0xE).setWidth 8) ((nibble &&& 1).setWidth 8)
  | op =>
      let new := op.value w (σ.fpr arch host order w.rb)
      (σ.withFpscr arch (op.mask w) (mergeBits (op.mask w) (σ.fpscr arch) new)).recorded arch w

/-- The bytes that an instruction may change. -/
def Touches (arch : Arch) (host : ByteOrder) (w : Insn) (o : Nat) : StatusOp → Prop
  | read => InFpr arch host w.rd o ∨ w.record = true ∧ InField arch 1 o
  | copy => InField arch w.crfd o
  | _ =>
      (∃ p ∈ StatusPart.all, o = specialOffset arch p.slot) ∨ w.record = true ∧ InField arch 1 o

end StatusOp

namespace GuestState

variable {arch : Arch} {host order : ByteOrder} {σ : GuestState} {f i : Nat}

/-! What an instruction writes does not show in the registers that it does not write. -/

theorem fpscr_withFpr (hi : i < 32) (x : BitVec 64) :
    (σ.withFpr arch host order i x).fpscr arch = σ.fpscr arch := by
  refine fpscr_congr fun p _ => withFpr_apply fun ho => ?_
  exact Nat.lt_irrefl _ (fpr_below hi ho p.slot)

theorem cr_withFpr (hi : i < 32) (x : BitVec 64) :
    (σ.withFpr arch host order i x).cr arch = σ.cr arch := by
  refine cr_congr fun o hle => withFpr_apply fun ho => ?_
  have hbelow := fpr_below hi ho .xerCa
  have hspecial := special_below arch .xerCa
  omega

theorem fpr_withFpscr (hi : i < 32) (mask v : BitVec 64) :
    (σ.withFpscr arch mask v).fpr arch host order i = σ.fpr arch host order i := by
  refine fpr_congr fun o ho => withFpscr_apply fun p _ => ?_
  exact Nat.ne_of_lt (fpr_below hi ho p.slot)

theorem cr_withFpscr (mask v : BitVec 64) : (σ.withFpscr arch mask v).cr arch = σ.cr arch := by
  refine cr_congr fun o hle => withFpscr_apply fun p _ => ?_
  exact Nat.ne_of_gt (Nat.lt_of_lt_of_le (special_below arch p.slot) hle)

theorem fpscr_withCrBytes (hi lo : BitVec 8) :
    (σ.withCrBytes arch f hi lo).fpscr arch = σ.fpscr arch := by
  refine fpscr_congr fun p _ => withCrBytes_apply (fun ho => ?_) hi lo
  exact Nat.not_le_of_lt (special_below arch p.slot) (crBase_le ho)

theorem fpr_withCrBytes (hi : i < 32) (high low : BitVec 8) :
    (σ.withCrBytes arch f high low).fpr arch host order i = σ.fpr arch host order i := by
  refine fpr_congr fun o ho => withCrBytes_apply (fun hfield => ?_) high low
  have hbelow := fpr_below hi ho .xerCa
  have hspecial := special_below arch .xerCa
  have hle := crBase_le hfield
  omega

theorem of_withFpr (hi : i < 32) (x : BitVec 64) :
    StatusFile.of arch host order (σ.withFpr arch host order i x) =
      { StatusFile.of arch host order σ with
        fpr := Function.update (StatusFile.of arch host order σ).fpr (.ofNat 32 i) x } := by
  have hval : ((Fin.ofNat 32 i : Fin 32) : Nat) = i := Nat.mod_eq_of_lt hi
  simp only [StatusFile.of, fpscr_withFpr hi, cr_withFpr hi, StatusFile.mk.injEq, true_and,
    and_true]
  funext k
  by_cases hk : k = .ofNat 32 i
  · rw [hk, Function.update_self, hval, fpr_withFpr]
  · rw [Function.update_of_ne hk, fpr_withFpr_of_ne]
    exact fun heq => hk (Fin.ext (heq.symm.trans hval.symm))

theorem of_withFpscr (mask new : BitVec 64) :
    StatusFile.of arch host order (σ.withFpscr arch mask (mergeBits mask (σ.fpscr arch) new)) =
      { StatusFile.of arch host order σ with
        fpscr := mergeBits mask (σ.fpscr arch) new &&& statusBits } := by
  simp only [StatusFile.of, fpscr_withFpscr, fpr_withFpscr (Fin.is_lt _), cr_withFpscr]

theorem of_withCrBytes (hf : f < 8) (hi lo : BitVec 8) :
    StatusFile.of arch host order (σ.withCrBytes arch f hi lo) =
      { StatusFile.of arch host order σ with
        cr := withField (σ.cr arch) f (((hi &&& 0xE) ||| (lo &&& 1)).setWidth 4) } := by
  simp only [StatusFile.of, fpscr_withCrBytes, fpr_withCrBytes (Fin.is_lt _), cr_withCrBytes hf]

theorem of_recorded : StatusFile.of arch host order (σ.recorded arch w) =
    { StatusFile.of arch host order σ with
      cr := if w.record then withField (σ.cr arch) 1 0 else σ.cr arch } := by
  unfold recorded
  split
  · exact of_withCrBytes (by decide) 0 0
  · rfl

theorem recorded_apply {o : Nat} (ho : ¬(w.record = true ∧ InField arch 1 o)) :
    σ.recorded arch w o = σ o := by
  unfold recorded
  split
  next hrecord => exact withCrBytes_apply (fun hfield => ho ⟨hrecord, hfield⟩) 0 0
  next => rfl

/-- All bits that are read are kept. -/
theorem fpscr_and_statusBits : σ.fpscr arch &&& statusBits = σ.fpscr arch := by
  simp only [statusBits, BitVec.and_or_distrib_left]
  rw [fpscr_and_region (by simp [StatusPart.all]), fpscr_and_region (by simp [StatusPart.all]),
    fpscr_and_region (by simp [StatusPart.all]), ← fpscr]

end GuestState

/-- A field of the status register, cut out as code does it. -/
theorem CrWord.field_status (x : BitVec 64) (f : Nat) :
    (((((x >>> (4 * (7 - f))).setWidth 32 &&& 0xF &&& 0xE).setWidth 8 &&& 0xE) |||
      (((x >>> (4 * (7 - f))).setWidth 32 &&& 0xF &&& 1).setWidth 8 &&& 1) : BitVec 8).setWidth 4) =
      field (x.setWidth 32) f := by
  rw [nibble_bytes, show 4 * (7 - f) = 28 - 4 * f by omega]
  refine BitVec.eq_of_getLsbD_eq fun k hk => ?_
  have hones : ∀ j < 4, (0xF : BitVec 32).getLsbD j = true := by decide
  have hword : k < 32 := by omega
  have hplace : 28 - 4 * f + k < 32 := by omega
  rw [getLsbD_field hk]
  simp only [BitVec.getLsbD_setWidth, BitVec.getLsbD_and, BitVec.getLsbD_ushiftRight, hones k hk,
    hk, hword, hplace, decide_true, Bool.true_and, Bool.and_true]

namespace StatusOp

variable {arch : Arch} {host order : ByteOrder} {σ : GuestState} {op : StatusOp}

theorem mergeBits_zero {n : Nat} (old new : BitVec n) : mergeBits 0 old new = old := by
  simp [mergeBits]

/-- Seen through the registers, an instruction makes one step. -/
theorem of_after : StatusFile.of arch host order (op.after arch host order w σ) =
    (StatusFile.of arch host order σ).step w op := by
  have hrb : ((Fin.ofNat 32 w.rb : Fin 32) : Nat) = w.rb := Nat.mod_eq_of_lt (w.bits_lt 11 5)
  have hwrite (hread : op ≠ .read) (hcopy : op ≠ .copy) :
      StatusFile.of arch host order ((σ.withFpscr arch (op.mask w) (mergeBits (op.mask w)
        (σ.fpscr arch) (op.value w (σ.fpr arch host order w.rb)))).recorded arch w) =
      (StatusFile.of arch host order σ).step w op := by
    rw [GuestState.of_recorded, GuestState.of_withFpscr, GuestState.cr_withFpscr]
    simp only [StatusFile.step, StatusFile.of, if_neg hread, if_neg hcopy, hrb]
  cases op with
  | read =>
      rw [after, GuestState.of_recorded, GuestState.of_withFpr w.rd_lt, GuestState.cr_withFpr w.rd_lt]
      simp only [StatusFile.step, StatusFile.of, mask, mergeBits_zero,
        GuestState.fpscr_and_statusBits, if_true, reduceCtorEq, if_false]
  | copy =>
      have hcrfd : w.crfd < 8 := w.bits_lt 23 3
      rw [after, GuestState.of_withCrBytes hcrfd, CrWord.field_status]
      simp only [StatusFile.step, StatusFile.of, mask, mergeBits_zero,
        GuestState.fpscr_and_statusBits, if_true, reduceCtorEq, if_false]
  | write | immediate | bit => exact hwrite (by simp) (by simp)

/-- Nothing but what an instruction writes is changed. -/
theorem after_apply {o : Nat} (ho : ¬op.Touches arch host w o) :
    op.after arch host order w σ o = σ o := by
  cases op with
  | copy => exact GuestState.withCrBytes_apply ho _ _
  | read =>
      obtain ⟨hfpr, hrecord⟩ := not_or.mp ho
      rw [after, GuestState.recorded_apply hrecord, GuestState.withFpr_apply hfpr]
  | write | immediate | bit =>
      obtain ⟨hparts, hrecord⟩ := not_or.mp ho
      refine (GuestState.recorded_apply hrecord).trans (GuestState.withFpscr_apply ?_)
      exact fun p hp heq => hparts ⟨p, hp, heq⟩

end StatusOp

/-! ## Masks -/

theorem Insn.testBit_bits (w : Insn) (k n j : Nat) :
    (w.bits k n).testBit j = (decide (j < n) && w.raw.getLsbD (k + j)) := by
  rw [bits, ← BitVec.getLsbD, BitVec.getLsbD_extractLsb']

theorem Insn.bits_one (w : Insn) (k : Nat) : w.bits k 1 = (w.raw.getLsbD k).toNat := by
  have hlt := w.bits_lt k 1
  have hbit := w.testBit_bits k 1 0
  rw [Nat.testBit_zero] at hbit
  cases hraw : w.raw.getLsbD k <;> simp_all <;> omega

namespace FloatingPoint

theorem fieldMask_eq : ∀ i < 8, ∀ upper : Bool,
    fieldMask i upper = chosenFields fun k => k = i + 8 * (!upper).toNat := by
  decide

/-- A field of the word in its place is a field of a register that has it everywhere. -/
theorem immediate_eq : ∀ u < 16, ∀ f < 8, ∀ upper : Bool,
    BitVec.ofNat 64 (u <<< fieldShift f upper) &&& fieldMask f upper =
      (CrWord.ofFields (fun _ => .ofNat 4 u) 16 : BitVec 64) &&& fieldMask f upper := by
  decide

/-- The fields that a mask of eight bits chooses in a half of the register. -/
theorem foldl_fieldMask (fm : Nat) (upper : Bool) :
    ((List.range 8).filter fun i => fm.testBit (7 - i)).foldl
        (fun m i => m ||| fieldMask i upper) 0 =
      chosenFields fun k => k / 8 = (!upper).toNat ∧ fm.testBit (7 - k % 8) := by
  apply BitVec.eq_of_getLsbD_eq
  intro k hk
  have hzero : (0 : BitVec 64).getLsbD k = false := BitVec.getLsbD_zero
  rw [getLsbD_foldl_or, getLsbD_chosenFields _ hk, hzero, Bool.false_or, List.any_filter,
    Bool.eq_iff_iff, List.any_eq_true]
  simp only [List.mem_range, Bool.and_eq_true, decide_eq_true_eq]
  constructor
  · rintro ⟨i, hi, hbit, hfield⟩
    rw [fieldMask_eq i hi, getLsbD_chosenFields _ hk, decide_eq_true_eq] at hfield
    rw [hfield]
    refine ⟨by omega, ?_⟩
    rwa [show (i + 8 * (!upper).toNat) % 8 = i by omega]
  · rintro ⟨hdiv, hbit⟩
    refine ⟨(15 - k / 4) % 8, by omega, hbit, ?_⟩
    rw [fieldMask_eq _ (by omega), getLsbD_chosenFields _ hk, decide_eq_true_eq]
    omega

/-- A bit of the word that says which half of the register is meant. -/
theorem upper_toNat (w : Insn) (i : Nat) :
    (!(w.slice i 1 == 1)).toNat = 1 - w.slice i 1 := by
  rw [Insn.slice, Insn.bits_one]
  cases w.raw.getLsbD (32 - (i + 1)) <;> rfl

theorem mask_write (w : Insn) :
    (if w.slice 6 1 == 1 then .allOnes 64 else
      ((List.range 8).filter fun i => w.fm.testBit (7 - i)).foldl
        (fun m i => m ||| fieldMask i (w.slice 15 1 == 1)) 0) = StatusOp.write.mask w := by
  have hbit (k : Nat) : w.fm.testBit (7 - k % 8) = true ↔ w.slice (7 + k % 8) 1 = 1 := by
    rw [Insn.fm, Insn.testBit_bits, Insn.slice, Insn.bits_one,
      show 32 - (7 + k % 8 + 1) = 17 + (7 - k % 8) by omega,
      decide_eq_true (show 7 - k % 8 < 8 by omega), Bool.true_and]
    cases w.raw.getLsbD (17 + (7 - k % 8)) <;> simp
  rw [foldl_fieldMask, upper_toNat]
  simp only [StatusOp.mask, hbit, beq_iff_eq]

theorem mask_immediate (w : Insn) :
    fieldMask w.crfd (w.slice 15 1 == 1) = StatusOp.immediate.mask w := by
  have hcrfd : w.crfd < 8 := w.bits_lt 23 3
  rw [fieldMask_eq _ hcrfd, upper_toNat]
  rfl

theorem mask_bit (w : Insn) (set : Bool) :
    ((1 <<< (31 - w.rd) : Nat) : BitVec 64) = (StatusOp.bit set).mask w := by
  have hall : ∀ r < 32, ((1 <<< (31 - r) : Nat) : BitVec 64) = .twoPow 64 (63 - (32 + r)) := by
    decide
  exact hall w.rd w.rd_lt

end FloatingPoint

/-! ## Steps -/

/-- The operators that take a floating-point number for its bits, and the bits for the number. -/
structure Interp.Patterns (I : Interp M) : Prop extends I.Bitwise where
  bits64 (x : BitVec 64) : I.op (.float .bits64) [⟨.f64, x⟩] = x
  ofBits64 (x : BitVec 64) : I.op (.float .ofBits64) [⟨.i64, x⟩] = x

/-- A read of a floating-point register. -/
def Expr.fpr (arch : Arch) (host : ByteOrder) (i : Nat) : Expr :=
  .get (Layout.fprOffset arch host i) .f64

theorem exec_getFpr (hlayout : env.layout = env.arch) {p : Progress} {i : Nat} (hi : i < 32) :
    exec env p (Lift.getFpr i) = (.ok (.fpr env.arch env.host i), p) := by
  change exec env p (Lift.getPlace (Layout.fpr env.layout i env.host)) = _
  rw [hlayout, Layout.fpr_eq _ _ hi]
  rfl

theorem Point.knows_fpr (i : Nat) : c.Knows I (· = c.state) (.fpr env.arch env.host i)
    ⟨.f64, c.state.fpr env.arch env.host I.order i⟩ :=
  ⟨rfl, fun _ _ hm => hm ▸ rfl⟩

theorem getFprBits_knows (hI : I.Patterns) (hlayout : env.layout = env.arch) {i : Nat} (hi : i < 32)
    (c : Point M) : ∃ e, exec env c.progress (Lift.getFprBits i) = (.ok e, c.progress) ∧
      c.Knows I (· = c.state) e ⟨.i64, c.state.fpr env.arch env.host I.order i⟩ := by
  have hexec : exec env c.progress (Lift.getFprBits i) =
      (.ok (un (.float .bits64) (.fpr env.arch env.host i)), c.progress) := by
    rw [Lift.getFprBits, Lift.exec_bind, exec_getFpr hlayout hi]
    rfl
  exact ⟨_, hexec, (Point.knows_fpr i).un rfl (hI.bits64 _)⟩

namespace Comes

variable {φ : Prop} {Q : Continuation → Flow M → Prop} {f : Unit → Lift Unit}

/-- A floating-point register is written. -/
theorem putFpr (hlayout : env.layout = env.arch) {i : Nat} (hi : i < 32) {e : Expr} {x : BitVec 64}
    (he : c.Has I e ⟨.f64, x⟩)
    (hf : ∀ c' [Step c c'], c'.state = c.state.withFpr env.arch env.host I.order i x →
      c'.memory = c.memory → Comes env I c' (f ()) φ Q) :
    Comes env I c (Lift.putFpr i e >>= f) φ Q := by
  refine .putAt (q := ⟨Layout.fprOffset env.arch env.host i, .f64⟩) ?_ he rfl hf
  change exec env c.progress (Lift.putPlace (Layout.fpr env.layout i env.host) _) = _
  rw [hlayout, Layout.fpr_eq _ _ hi]

/-- A floating-point register is given other bits. -/
theorem putFprBits (hI : I.Patterns) (hlayout : env.layout = env.arch) {i : Nat} (hi : i < 32)
    {e : Expr} {x : BitVec 64} (he : c.Has I e ⟨.i64, x⟩)
    (hf : ∀ c' [Step c c'], c'.state = c.state.withFpr env.arch env.host I.order i x →
      c'.memory = c.memory → Comes env I c' (f ()) φ Q) :
    Comes env I c (Lift.putFprBits i e >>= f) φ Q :=
  .putFpr hlayout hi (he.un rfl (hI.ofBits64 x)) hf

/-- The two bytes of a condition field are written. -/
theorem putCrBytes (hlayout : env.layout = env.arch) {i : Nat} (hi : i < 8) {a b : Expr}
    {high low : BitVec 8} (ha : c.Has I a (.i8 high)) (hb : ∀ {S}, c.Knows I S b (.i8 low))
    (hf : ∀ c' [Since c c'], c'.state = c.state.withCrBytes env.arch i high low →
      c'.memory = c.memory → Comes env I c' (f ()) φ Q) :
    Comes env I c (Lift.putCr321 i a >>= fun _ => Lift.putCr0 i b >>= f) φ Q := by
  have hplaces := And.intro (Layout.cr321_eq env.layout hi) (Layout.cr0_eq env.layout hi)
  refine .put hplaces.1 ha rfl fun c₁ _ hstate₁ hmemory₁ => ?_
  refine .put hplaces.2 hb.since.always rfl fun c₂ _ hstate₂ hmemory₂ => hf c₂ ?_ ?_
  · rw [hstate₂, hstate₁, hlayout]
    exact GuestState.write_field ..
  · exact hmemory₂.trans hmemory₁

/-- Four bits come into a condition field. -/
theorem putCrField (hI : I.Bitwise) (hlayout : env.layout = env.arch) {i : Nat} (hi : i < 8)
    {e : Expr} {x : BitVec 32} (he : c.Has I e (.i32 x))
    (hf : ∀ c' [Since c c'], c'.state = c.state.withCrBytes env.arch i ((x &&& 0xE).setWidth 8)
      ((x &&& 1).setWidth 8) → c'.memory = c.memory → Comes env I c' (f ()) φ Q) :
    Comes env I c (Lift.putCrField i e >>= f) φ Q := by
  unfold Lift.putCrField
  simp only [bind_assoc]
  refine .bind he fun v c₁ _ hstate₁ hmemory₁ hv => ?_
  have hpart (mask : BitVec 32) {S : GuestState → Prop} :
      c₁.Knows I S (un (.cast .low32to8) (bin .and32 v (.u32 mask)))
        (.i8 ((x &&& mask).setWidth 8)) :=
    (hv.bin (.const (.u32 mask)) rfl (hI.and .w32 x mask)).un rfl
      (hI.cast .low32to8 rfl .i32 rfl _)
  refine putCrBytes hlayout hi (hpart 0xE).always (hpart 1) fun c₂ _ hstate₂ hmemory₂ => ?_
  have : Since c c₂ := Since.trans c₁
  exact hf c₂ (hstate₁ ▸ hstate₂) (hmemory₂.trans hmemory₁)

end Comes

namespace FloatingPoint

variable {φ : Prop} {Q : Continuation → Flow M → Prop} {f : Unit → Lift Unit}

theorem getFpscr_knows (hI : I.Bitwise) (hlayout : env.layout = env.arch) (c : Point M) :
    ∃ e, exec env c.progress Lift.getFpscr = (.ok e, c.progress) ∧
      c.Knows I (· = c.state) e ⟨.i64, c.state.fpscr env.arch⟩ := by
  have hpart (s : SpecialSlot) (hs : s.ty env.arch = .i8) (keep : BitVec 8) :=
    (Point.knows_masked (c := c) hI env.arch hs keep).un rfl (hI.cast .zext8to64 rfl .i8 rfl _)
  refine ⟨_, rfl, ?_⟩
  rw [hlayout]
  have hrounding := hpart .fpRound rfl 3
  have houtcome := (hpart .cFpcc rfl 0x1F).bin (.const (.u8 12)) rfl
    (hI.shl .w64 _ 12 (by decide))
  have hdecimal := (hpart .dfpRound rfl 7).bin (.const (.u8 32)) rfl
    (hI.shl .w64 _ 32 (by decide))
  have hall := (hrounding.bin houtcome rfl (hI.or .w64 _ _)).bin hdecimal rfl (hI.or .w64 _ _)
  refine hall.congr (congrArg (Value.mk .i64) ?_)
  exact congrArg (· ||| _ ||| _) (BitVec.shiftLeft_zero _).symm

/-- The code that writes a part of the status register. -/
def putPart (mask : BitVec 64) (v : Expr) (p : StatusPart) : Lift Unit :=
  if mask &&& p.region != 0 then
    Lift.putMasked p.slot p.keep (un (.cast .low64to8)
      (if p.shift = 0 then v else bin .shr64 v (.u8 (.ofNat 8 p.shift))))
  else pure ()

theorem putFpscrMasked_eq (e : Expr) (mask : BitVec 64) :
    Lift.putFpscrMasked e mask = Lift.bind e >>= fun v => StatusPart.all.forM (putPart mask v) := by
  have hrounding : Lift.fpscrRn = StatusPart.rounding.region := rfl
  have houtcome : Lift.fpscrClass = StatusPart.outcome.region := rfl
  have hdecimal : Lift.fpscrDrn = StatusPart.decimal.region := rfl
  unfold Lift.putFpscrMasked
  refine congrArg _ (funext fun v => ?_)
  change _ = putPart mask v .rounding >>= fun _ => putPart mask v .outcome >>= fun _ =>
    putPart mask v .decimal >>= pure
  rw [hrounding, houtcome, hdecimal]
  by_cases h₁ : (mask &&& StatusPart.rounding.region != 0) = true <;>
    by_cases h₂ : (mask &&& StatusPart.outcome.region != 0) = true <;>
      by_cases h₃ : (mask &&& StatusPart.decimal.region != 0) = true <;>
        simp only [putPart, h₁, h₂, h₃, if_true, bind_pure] <;> rfl

/-- The parts of the status register are written one after another. -/
theorem putParts_comes (hI : I.Bitwise) (hlayout : env.layout = env.arch) (mask : BitVec 64)
    {parts : List StatusPart} (hparts : ∀ p ∈ parts, p.slot.ty env.arch = .i8 ∧ p.shift < 64)
    {v : Expr} {x : BitVec 64} (hv : ∀ {S}, c.Knows I S v ⟨.i64, x⟩)
    (hf : ∀ c' [Since c c'], c'.state = parts.foldl (StatusPart.write env.arch mask x) c.state →
      c'.memory = c.memory → Comes env I c' (f ()) φ Q) :
    Comes env I c (parts.forM (putPart mask v) >>= f) φ Q := by
  induction parts generalizing c with
  | nil => exact hf c rfl rfl
  | cons p parts ih =>
      obtain ⟨⟨hslot, hshift⟩, hparts⟩ := List.forall_mem_cons.mp hparts
      have hcons : (p :: parts).forM (putPart mask v) >>= f =
          putPart mask v p >>= fun _ => parts.forM (putPart mask v) >>= f := bind_assoc _ _ _
      have hbyte : c.Has I (un (.cast .low64to8)
          (if p.shift = 0 then v else bin .shr64 v (.u8 (.ofNat 8 p.shift))))
          ⟨.i8, (x >>> p.shift).setWidth 8⟩ := by
        have hcut (e : Expr) (y : BitVec 64) (he : c.Has I e ⟨.i64, y⟩) :=
          he.un rfl (hI.cast .low64to8 rfl .i64 rfl y)
        split
        next hzero =>
          rw [hzero]
          exact hcut v x hv.always
        next =>
          have hamount : (BitVec.ofNat 8 p.shift).toNat = p.shift := Nat.mod_eq_of_lt (by omega)
          have hshr := hI.shr .w64 x (.ofNat 8 p.shift) (by rw [hamount]; exact hshift)
          rw [hamount] at hshr
          exact hcut _ _ (hv.bin (.const _) rfl hshr).always
      rw [hcons, putPart]
      by_cases hclear : mask &&& p.region = 0
      · rw [if_neg (by simpa using hclear)]
        refine ih hparts hv fun c' _ hstate hmemory => hf c' ?_ hmemory
        rw [hstate, List.foldl_cons, StatusPart.write, if_pos hclear]
      · rw [if_pos (by simpa using hclear)]
        refine .putMasked hI hlayout hslot hbyte p.keep fun c₁ _ hstate₁ hmemory₁ => ?_
        refine ih hparts hv.since fun c' _ hstate hmemory => ?_
        have : Since c c' := Since.trans c₁
        refine hf c' ?_ (hmemory.trans hmemory₁)
        rw [hstate, hstate₁, List.foldl_cons, StatusPart.write, if_neg hclear]

/-- The status register is merged with a value. -/
theorem writeStatus_comes (hI : I.Bitwise) (hlayout : env.layout = env.arch) {e : Expr}
    {new : BitVec 64} (he : c.Knows I (· = c.state) e ⟨.i64, new⟩) (mask : BitVec 64)
    (hf : ∀ c' [Since c c'], c'.state = c.state.withFpscr env.arch mask
      (mergeBits mask (c.state.fpscr env.arch) new) → c'.memory = c.memory →
      Comes env I c' (f ()) φ Q) :
    Comes env I c (writeStatus e mask >>= f) φ Q := by
  obtain ⟨old, hexec, hold⟩ := getFpscr_knows hI hlayout c
  have hkept := hold.bin (.const (.u64 (~~~mask))) rfl (hI.and .w64 _ (~~~mask))
  have hnew := he.bin (.const (.u64 mask)) rfl (hI.and .w64 new mask)
  have hmerged := hkept.bin hnew rfl (hI.or .w64 _ _)
  unfold writeStatus
  rw [bind_assoc]
  refine .give hexec ?_
  rw [putFpscrMasked_eq, bind_assoc]
  refine .bind (hmerged.has rfl) fun v c₁ _ hstate₁ hmemory₁ hv => ?_
  refine putParts_comes hI hlayout mask (fun p hp => ?_) hv fun c' _ hstate hmemory => ?_
  · simp only [StatusPart.all, List.mem_cons, List.not_mem_nil, or_false] at hp
    obtain rfl | rfl | rfl := hp <;> exact ⟨rfl, by decide⟩
  · have : Since c c' := Since.trans c₁
    refine hf c' ?_ (hmemory.trans hmemory₁)
    rw [hstate, hstate₁]
    rfl

/-- How an instruction is left. -/
def left (env : Env) (I : Interp M) (w : Insn) (op : StatusOp) (m : Machine M) : Left M :=
  ⟨env.nia, .boring, m.memory, op.after env.arch env.host I.order w m.state⟩

/-- The end of the instructions with a record bit. -/
theorem record_comes (hlayout : env.layout = env.arch) (hnext : c.progress.next = .continue)
    {left : Left M} (hleft : (⟨env.nia, .boring, c.memory, c.state.recorded env.arch w⟩ : Left M) =
      left) :
    Comes env I c (if w.record = true then Lift.recordFloat else pure ()) False
      fun next flow => next = .continue ∧ env.leave I next flow = left := by
  subst hleft
  unfold GuestState.recorded
  split
  next =>
    have hcode : Lift.recordFloat = Lift.putCr321 1 (.u8 0) >>= fun _ =>
        Lift.putCr0 1 (.u8 0) >>= pure := by
      rw [bind_pure]
      rfl
    have hzero {S : GuestState → Prop} : c.Knows I S (.u8 0) (.i8 0) := .const (.u8 0)
    rw [hcode]
    refine .putCrBytes hlayout (show 1 < 8 by decide) hzero.always hzero
      fun c' _ hstate hmemory => .done (Since.next_eq hnext) ⟨rfl, ?_⟩
    rw [← hmemory]
    exact congrArg (Left.mk _ _ _) hstate
  next => exact .done hnext ⟨rfl, rfl⟩

/-- The code that sets or clears a bit. -/
theorem status_bit {set : Bool} (hxo : w.xo10 = (StatusOp.bit set).xo10) :
    ∃ line, status w = Lift.reservedZero w (w.ra ||| w.rb) "mtfsb reserved fields" >>= fun _ =>
      Lift.listed line >>= fun _ =>
        writeStatus (.u64 (if set then (StatusOp.bit set).mask w else 0)) ((StatusOp.bit set).mask w)
          >>= fun _ => if w.record = true then Lift.recordFloat else pure () := by
  unfold status
  cases set with
  | true =>
      have hcode : w.xo10 = 38 := hxo
      simp only [hcode, mask_bit w true]
      exact ⟨_, rfl⟩
  | false =>
      have hcode : w.xo10 = 70 := hxo
      simp only [hcode, mask_bit w false]
      exact ⟨_, rfl⟩

/-- The code that writes the status register, or reads it. -/
theorem status_comes (hI : I.Patterns) (hlayout : env.layout = env.arch)
    (hnext : c.progress.next = .continue) {op : StatusOp} (hxo : w.xo10 = op.xo10)
    (hcopy : op ≠ .copy) :
    Comes env I c (status w) (op.Reserved w) fun next flow => next = .continue ∧
      env.leave I next flow = left env I w op c.machine := by
  have hbits := hI.toBitwise
  have hdone {e : Expr} {new : BitVec 64} {mask : BitVec 64} {c₁ : Point M} [Since c c₁]
      (hmachine₁ : c₁.machine = c.machine) (he : c₁.Knows I (· = c₁.state) e ⟨.i64, new⟩)
      (hafter : op.after env.arch env.host I.order w c₁.state = (c₁.state.withFpscr env.arch mask
        (mergeBits mask (c₁.state.fpscr env.arch) new)).recorded env.arch w) :
      Comes env I c₁ (writeStatus e mask >>= fun _ =>
          if w.record = true then Lift.recordFloat else pure ()) False fun next flow =>
        next = .continue ∧ env.leave I next flow = left env I w op c.machine := by
    refine writeStatus_comes hbits hlayout he mask fun c₂ _ hstate hmemory => ?_
    have : Since c c₂ := Since.trans c₁
    refine record_comes hlayout (Since.next_eq hnext) ?_
    rw [hstate, hmemory, ← hafter, ← hmachine₁]
    rfl
  have hreserved {a b : Nat} : a ||| b ≠ 0 ↔ a ≠ 0 ∨ b ≠ 0 := by
    rw [Ne, Nat.or_eq_zero_iff]
    tauto
  cases op with
  | copy => exact absurd rfl hcopy
  | read =>
      have hcode : w.xo10 = 583 := hxo
      unfold status
      simp only [hcode]
      refine (Comes.guard (Lift.reservedZero_refuses w _ _) fun _ => .listed fun c₁ _ hmachine₁ =>
        ?_).congr ((or_iff_left id).trans hreserved)
      obtain ⟨e, hexec, he⟩ := getFpscr_knows hbits hlayout c₁
      refine .give hexec (.putFprBits hI hlayout w.rd_lt (he.has rfl) fun c₂ _ hstate hmemory => ?_)
      refine record_comes hlayout (Since.next_eq hnext) ?_
      rw [left, hstate, hmemory, ← hmachine₁]
      rfl
  | write =>
      have hcode : w.xo10 = 711 := hxo
      unfold status
      simp only [hcode]
      refine .listed fun c₁ _ hmachine₁ => ?_
      obtain ⟨e, hexec, he⟩ := getFprBits_knows hI hlayout (w.bits_lt 11 5) c₁
      refine .give hexec ?_
      rw [mask_write]
      exact hdone hmachine₁ he rfl
  | immediate =>
      have hcode : w.xo10 = 134 := hxo
      have hnew := immediate_eq (w.slice 16 4) (w.bits_lt _ 4) w.crfd (w.bits_lt 23 3)
        (w.slice 15 1 == 1)
      unfold status
      simp only [hcode]
      refine (Comes.guard (Lift.reservedZero_refuses w _ _) fun _ => .listed fun c₁ _ hmachine₁ =>
        ?_).congr ((or_iff_left id).trans hreserved)
      rw [mask_immediate] at hnew ⊢
      refine hdone hmachine₁ (.const _) ?_
      rw [mergeBits_congr hnew]
      rfl
  | bit set =>
      obtain ⟨line, hcode⟩ := status_bit hxo
      have hnew : (if set then (StatusOp.bit set).mask w else 0) &&& (StatusOp.bit set).mask w =
          (if set then .allOnes 64 else 0) &&& (StatusOp.bit set).mask w := by
        cases set with
        | true => exact (BitVec.and_self).trans BitVec.allOnes_and.symm
        | false => rfl
      rw [hcode]
      refine (Comes.guard (Lift.reservedZero_refuses w _ _) fun _ => .listed fun c₁ _ hmachine₁ =>
        ?_).congr ((or_iff_left id).trans hreserved)
      refine hdone hmachine₁ (.const _) ?_
      rw [mergeBits_congr hnew]
      rfl

/-- The code that copies a field of the status register. -/
theorem readField_comes (hI : I.Bitwise) (hlayout : env.layout = env.arch)
    (hnext : c.progress.next = .continue) :
    Comes env I c (readField w) (StatusOp.copy.Reserved w) fun next flow => next = .continue ∧
      env.leave I next flow = left env I w .copy c.machine := by
  have hreserved : w.slice 9 2 ||| w.slice 14 2 ||| w.rb ||| w.record.toNat ≠ 0 ↔
      StatusOp.copy.Reserved w := by
    simp only [Ne, Nat.or_eq_zero_iff, StatusOp.Reserved, Bool.toNat_eq_zero]
    cases w.record <;> tauto
  refine (Comes.guard (Lift.reservedZero_refuses w _ _) fun _ => .listed fun c₁ _ hmachine₁ =>
    ?_).congr ((or_iff_left id).trans hreserved)
  obtain ⟨e, hexec, he⟩ := getFpscr_knows hI hlayout c₁
  have hcrfs : w.crfs < 8 := w.bits_lt 18 3
  have hamount : (BitVec.ofNat 8 (4 * (7 - w.crfs))).toNat = 4 * (7 - w.crfs) :=
    Nat.mod_eq_of_lt (by omega)
  have hshr := hI.shr .w64 (c₁.state.fpscr env.arch) (.ofNat 8 (4 * (7 - w.crfs)))
    (by rw [hamount, Width.bits]; omega)
  rw [hamount] at hshr
  have hnibble := (((he.bin (.const (.u8 _)) rfl hshr).un rfl (hI.cast .low64to32 rfl .i64 rfl _)).bin
    (.const (.u32 0xF)) rfl (hI.and .w32 _ 0xF)).has rfl
  refine .give hexec (.last (.putCrField hI hlayout (w.bits_lt 23 3) hnibble
    fun c₂ _ hstate hmemory => ?_))
  have : Since c c₂ := Since.trans c₁
  refine .done (Since.next_eq hnext) ⟨rfl, ?_⟩
  rw [left, ← hmachine₁]
  change (⟨_, _, c₂.memory, c₂.state⟩ : Left M) = _
  rw [hmemory, hstate]
  rfl

end FloatingPoint

/-! ## Whole instructions -/

theorem Insn.StatusForm.route {op : StatusOp} (hform : w.StatusForm op) :
    Route.find? w = some ⟨.any, [.fp], .floatingPoint⟩ ∧
      FloatingPoint.lift w =
        if op = .copy then FloatingPoint.readField w else FloatingPoint.status w := by
  have hxo := hform.xo10
  have hlow : w.xo5 ∈ [0, 6, 7] := by
    rw [w.xo5_eq, hxo]
    cases op with
    | bit set => cases set <;> decide
    | _ => decide
  constructor
  · have hroutes : ∀ xo ∈ [0, 6, 7], (Route.floatArithmetic [23, 24, 26]).find?
        (·.pattern.takesFloat xo) = some ⟨.any, [.fp], .floatingPoint⟩ := by
      decide
    have hopcode : Route.ofOpcode w.opcode = Route.floatArithmetic [23, 24, 26] := by
      rw [hform.opcode]
      rfl
    exact (Route.find?_float hopcode).trans (hroutes _ hlow)
  · have hnot : ¬18 ≤ w.xo5 := by
      simp only [List.mem_cons, List.not_mem_nil, or_false] at hlow
      omega
    simp only [FloatingPoint.lift, hform.opcode, if_neg hnot, FloatingPoint.extended, hxo]
    cases op with
    | bit set => cases set <;> rfl
    | _ => rfl

/-- Each word that moves to or from the status register does so where it stands. -/
theorem Guest.status_performs (g : Guest) (hI : I.Patterns) {op : StatusOp}
    (hform : w.StatusForm op) :
    g.Performs w I
      (Gate.fp.isOpen g.arch (.resolve g.arch g.info.caps) = false ∨ op.Reserved w)
      fun cia next m out => next = .continue ∧ out = FloatingPoint.left (g.env cia cia) I w op m := by
  obtain ⟨hroute, hlift⟩ := hform.route
  have hclosed : Route.Closed ⟨.any, [.fp], .floatingPoint⟩ g ↔
      Gate.fp.isOpen g.arch (.resolve g.arch g.info.caps) = false := by
    simp [Route.closed_iff]
  refine Guest.performs hroute (by simp [hform.opcode]) _ (or_congr hclosed Iff.rfl)
    fun env c hlayout henv hnext => ?_
  obtain ⟨cia, blockStart, rfl⟩ := henv
  change Comes _ I c (FloatingPoint.lift w) _ _
  rw [hlift]
  split
  next hcopy =>
    subst hcopy
    exact FloatingPoint.readField_comes hI.toBitwise hlayout hnext
  next hcopy => exact FloatingPoint.status_comes hI hlayout hnext hform.xo10 hcopy

/-- Writes of the floating-point status register merge the bits that it keeps with a value under a
mask, reads of it give it back, and a sequence of both does what it does to one register of 64
bits. Nothing else changes, but for condition field 1 where a word asks for it. -/
theorem Guest.status_merges (g : Guest) (hI : I.Patterns) :
    (∀ {w : Insn} {op : StatusOp}, w.StatusForm op → g.Performs w I
      (Gate.fp.isOpen g.arch (.resolve g.arch g.info.caps) = false ∨ op.Reserved w)
      fun cia next m out =>
        next = .continue ∧ out = FloatingPoint.left (g.env cia cia) I w op m) ∧
    (∀ (w : Insn) (op : StatusOp) (σ : GuestState),
      StatusFile.of g.arch g.host I.order (op.after g.arch g.host I.order w σ) =
        (StatusFile.of g.arch g.host I.order σ).step w op ∧
      ∀ o, ¬op.Touches g.arch g.host w o → op.after g.arch g.host I.order w σ o = σ o) ∧
    (∀ {ws : List Insn} {σ σ' : GuestState}, (∀ w ∈ ws, ∃ op, w.StatusForm op) →
      g.Runs I ws σ σ' → StatusFile.of g.arch g.host I.order σ' =
        ws.foldl StatusFile.next (StatusFile.of g.arch g.host I.order σ)) := by
  refine ⟨g.status_performs hI, fun w op σ => ⟨StatusOp.of_after, fun o => StatusOp.after_apply⟩,
    fun hforms hruns => hruns.foldl fun w hw => ?_⟩
  obtain ⟨op, hform⟩ := hforms w hw
  refine ⟨_, (g.status_performs hI hform).mono ?_⟩
  rintro cia next m out ⟨-, rfl⟩
  rw [StatusFile.next_eq _ hform]
  exact StatusOp.of_after

namespace Interp

/-- The operators on integers, and those that take numbers for bits. -/
def patternOp : (op : Op) → List Value → BitVec op.signature.ret.bits
  | .float .bits64 => unary .f64 fun x => x
  | .float .ofBits64 => unary .i64 fun x => x
  | op => integerOp op

/-- The interpretation that computes with the bits of integers and floating-point numbers. -/
def patterns (order : ByteOrder) : Interp Unit := { zero order with op := patternOp }

theorem patterns_patterns (order : ByteOrder) : (patterns order).Patterns where
  or := (integer_bitwise order).or
  and := (integer_bitwise order).and
  xor := (integer_bitwise order).xor
  not := (integer_bitwise order).not
  shl := (integer_bitwise order).shl
  shr := (integer_bitwise order).shr
  cast := (integer_bitwise order).cast
  bits64 x := unary_mk (fun x : BitVec Ty.f64.bits => x) x
  ofBits64 x := unary_mk (fun x : BitVec Ty.i64.bits => x) x

end Interp

/-- The words `mtfsfi 4,5` and `mffs f1` run from a state with all bits set. The first takes four
of the five bits that are kept of two fields. -/
theorem Guest.status_merges_words :
    let g : Guest := { arch := .ppc64 }
    ∃ σ', g.Runs (.patterns .little) [⟨0xFE00510C⟩, ⟨0xFC20048E⟩] (fun _ => 0xFF) σ' ∧
      σ'.fpr .ppc64 .little .little 1 = 0x700015003 := by
  intro g
  obtain ⟨hperforms, -, hruns⟩ := Guest.status_merges g (Interp.patterns_patterns .little)
  have hwrite : (⟨0xFE00510C⟩ : Insn).StatusForm .immediate := ⟨by decide, by decide⟩
  have hread : (⟨0xFC20048E⟩ : Insn).StatusForm .read := ⟨by decide, by decide⟩
  have hfetch : Insn.fetch? ⟨#[0xFE, 0x00, 0x51, 0x0C]⟩ 0 .big = some ⟨0xFE00510C⟩ := by decide
  have hfetch' : Insn.fetch? ⟨#[0xFC, 0x20, 0x04, 0x8E]⟩ 0 .big = some ⟨0xFC20048E⟩ := by decide
  obtain ⟨l, ss, hresult, hstmts, hrefused, -⟩ :=
    hperforms hwrite _ 0 0x1000 0x1000 (.empty 0) (.start () fun _ => 0xFF) (by decide) hfetch
  obtain ⟨l', ss', hresult', hstmts', hrefused', -⟩ :=
    hperforms hread _ 0 0x1004 0x1004 (.empty 0) (.start () fun _ => 0xFF) (by decide) hfetch'
  have haccepted : l.isRefused = false := by
    refine Bool.eq_false_iff.mpr fun h => ?_
    obtain h | h | h := hrefused.mp h <;> revert h <;> decide
  have haccepted' : l'.isRefused = false := by
    refine Bool.eq_false_iff.mpr fun h => ?_
    obtain h | h | h := hrefused'.mp h <;> revert h <;> decide
  have hrun : g.Runs (.patterns .little) [⟨0xFE00510C⟩, ⟨0xFC20048E⟩] (fun _ => 0xFF) _ :=
    .cons #[] (fun _ => default) () hfetch hresult haccepted hstmts
      (.cons #[] (fun _ => default) () hfetch' hresult' haccepted' hstmts' (.nil _))
  have hforms : ∀ w ∈ [(⟨0xFE00510C⟩ : Insn), ⟨0xFC20048E⟩], ∃ op, w.StatusForm op := by
    intro w hw
    simp only [List.mem_cons, List.not_mem_nil, or_false] at hw
    obtain rfl | rfl := hw
    · exact ⟨_, hwrite⟩
    · exact ⟨_, hread⟩
  have hfile := hruns hforms hrun
  have hfpr : ([(⟨0xFE00510C⟩ : Insn), ⟨0xFC20048E⟩].foldl StatusFile.next
      (StatusFile.of .ppc64 .little .little fun _ => 0xFF)).fpr 1 = 0x700015003 := by
    decide +kernel
  exact ⟨_, hrun, (congrArg (fun file => file.fpr 1) hfile).trans hfpr⟩

end PowerLift
