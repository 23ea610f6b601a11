import PowerLift.Proofs.StatusMoves
import PowerLift.Proofs.Transfers
import PowerLift.Proofs.VectorSteps
import PowerLift.Proofs.WordMemory

/-!
# What floating-point and vector-scalar accesses move

An access moves pieces of one type, which stand one behind the other in memory. In registers they
are a floating-point register, a pair of them, or a vector-scalar register by its high half or by
its elements. A floating-point register is the high half of a vector-scalar register, so that what
one of them has stored the other can load.
-/

namespace PowerLift

open Layout (specialOffset)
open RegisterFile (high withHigh)

variable {M : Type}

/-! ## Halves of registers -/

namespace GuestState

variable {arch : Arch} {order : ByteOrder} {σ : GuestState} {i k : Nat}

/-- A floating-point register is the high half of the vector-scalar register of its number. -/
theorem fpr_eq_high : σ.fpr arch order order i = high (σ.vsr arch order i) :=
  BitVec.eq_of_getLsbD_eq fun _ hk =>
    (getLsbD_read_highHalf hk).trans (RegisterFile.getLsbD_high _ hk).symm

/-- A write of a floating-point register keeps the low half. -/
theorem vsr_withFpr (x : BitVec 64) :
    (σ.withFpr arch order order i x).vsr arch order i = withHigh (σ.vsr arch order i) x :=
  BitVec.eq_of_getLsbD_eq fun k hk =>
    (getLsbD_read_write_highHalf rfl hk).trans (RegisterFile.getLsbD_withHigh _ _ k).symm

/-- General registers and vector-scalar registers do not overlap. -/
theorem operand_below_vsr (arch : Arch) (hi : i < 32) (k : Nat) :
    i * arch.wordBytes + arch.word.ty.bytes ≤ Layout.vsrBase arch + k * 16 := by
  cases arch with
  | ppc32 =>
      change i * 4 + 4 ≤ 128 + k * 16
      omega
  | ppc64 =>
      change i * 8 + 8 ≤ 256 + k * 16
      omega

theorem vsr_withOperand (hi : i < 32) (x : BitVec arch.word.ty.bits) :
    (σ.withOperand arch order i x).vsr arch order k = σ.vsr arch order k :=
  read_write_disjoint (v := ⟨arch.word.ty, x⟩) (.inl (operand_below_vsr arch hi k))

theorem fpr_withOperand {host : ByteOrder} (hi : i < 32) (x : BitVec arch.word.ty.bits) :
    (σ.withOperand arch order i x).fpr arch host order k = σ.fpr arch host order k := by
  refine read_write_disjoint (v := ⟨arch.word.ty, x⟩) (.inl ?_)
  have hbelow := operand_below_vsr arch hi k
  simp only [Layout.fprOffset]
  omega

end GuestState

/-- The binary rounding mode that two bits ask for: to nearest, towards zero, up or down. -/
def Rounding.ofBits (b : BitVec 8) : Rounding :=
  match b.toNat % 4 with
  | 0 => .nearestEven
  | 1 => .zero
  | 2 => .posInf
  | _ => .negInf

/-- The binary rounding mode of a state. -/
def GuestState.roundingMode (arch : Arch) (σ : GuestState) : Rounding :=
  .ofBits (σ (specialOffset arch .fpRound))

/-! ## Pieces -/

namespace FloatingPoint

namespace Datum

/-- What a datum is in memory. -/
def ty : Datum → Ty
  | single => .f32
  | double => .f64
  | word _ => .i32

/-- What a load makes of a datum. -/
def widened (I : Interp M) : (d : Datum) → BitVec d.ty.bits → BitVec 64
  | single, x => I.op (.float .ofSingle) [⟨.f32, x⟩]
  | double, x => x
  | word true, x => x.signExtend 64
  | word false, x => x.setWidth 64

/-- What a store makes of a double word. -/
def narrowed (I : Interp M) (mode : Rounding) : (d : Datum) → BitVec 64 → BitVec d.ty.bits
  | single, x => I.op (.float .toSingle) [⟨.i32, mode.code⟩, ⟨.f64, x⟩]
  | double, x => x
  | word _, x => x.setWidth 32

end Datum

/-- What an access moves. -/
inductive Item where
  /-- A floating-point register. -/
  | fpr (d : Datum)
  /-- Two neighbouring floating-point registers. -/
  | pair
  /-- The high half of a vector-scalar register. A load clears the low half, or copies to it. -/
  | scalar (d : Datum) (copied : Bool)
  /-- A vector-scalar register, element by element. -/
  | elements (v : Word)
  deriving DecidableEq

namespace Item

/-- The type of each piece. -/
def ty : Item → Ty
  | fpr d | scalar d _ => d.ty
  | pair => .f64
  | elements v => v.ty

/-- The number of pieces. -/
def count : Item → Nat
  | fpr _ | scalar _ _ => 1
  | pair => 2
  | elements v => 128 / v.ty.bits

section

variable (I : Interp M) (arch : Arch) (host : ByteOrder) (w : Insn) (σ : GuestState)

/-- The pieces that the registers of a word hold. -/
def held : (x : Item) → Nat → BitVec x.ty.bits
  | fpr d, _ => d.narrowed I (σ.roundingMode arch) (σ.fpr arch host I.order w.rd)
  | pair, i => σ.fpr arch host I.order (w.rd + i)
  | scalar d _, _ => d.narrowed I (σ.roundingMode arch) (high (σ.vsr arch I.order w.xt))
  | elements v, i => elementAt v.ty.bits (σ.vsr arch I.order w.xt) i

/-- The state in which the registers of a word were given pieces. -/
def given : (x : Item) → (Nat → BitVec x.ty.bits) → GuestState
  | fpr d, f => σ.withFpr arch host I.order w.rd (d.widened I (f 0))
  | pair, f => (σ.withFpr arch host I.order w.rd (f 0)).withFpr arch host I.order (w.rd + 1) (f 1)
  | scalar d copied, f =>
      let x := d.widened I (f 0)
      σ.withVsr arch I.order w.xt (x ++ if copied then x else 0)
  | elements v, f => σ.withVsr arch I.order w.xt (ofElements v.ty.bits f)

end

/-- The bytes of guest state that hold an item. -/
def Covers (arch : Arch) (host : ByteOrder) (w : Insn) : Item → Nat → Prop
  | fpr _, o => Layout.InFpr arch host w.rd o
  | pair, o => Layout.InFpr arch host w.rd o ∨ Layout.InFpr arch host (w.rd + 1) o
  | scalar _ _, o | elements _, o =>
      Layout.vsrBase arch + w.xt * 16 ≤ o ∧ o < Layout.vsrBase arch + w.xt * 16 + Ty.v128.bytes

theorem given_apply {I : Interp M} {arch : Arch} {host : ByteOrder} {w : Insn} {σ : GuestState}
    {x : Item} {o : Nat} (ho : ¬x.Covers arch host w o) (f : Nat → BitVec x.ty.bits) :
    x.given I arch host w σ f o = σ o := by
  cases x with
  | fpr d => exact GuestState.withFpr_apply ho
  | pair =>
      obtain ⟨hfirst, hsecond⟩ := not_or.mp ho
      exact (GuestState.withFpr_apply hsecond).trans (GuestState.withFpr_apply hfirst)
  | scalar d copied | elements v => exact if_neg ho

theorem ty_ne_i1 (x : Item) : x.ty ≠ .i1 := by
  cases x with
  | fpr d | scalar d _ => cases d <;> exact Ty.noConfusion
  | pair => exact Ty.noConfusion
  | elements v => cases v <;> exact Ty.noConfusion

theorem count_pos (x : Item) : 0 < x.count := by
  cases x with
  | fpr d | scalar d _ => exact Nat.one_pos
  | pair => exact Nat.two_pos
  | elements v => cases v <;> decide

/-- An item is at most as long as a vector. -/
theorem length_le (x : Item) : x.count * x.ty.bytes ≤ 16 := by
  have hdatum (d : Datum) : 1 * d.ty.bytes ≤ 16 := by
    cases d with
    | word signed => exact (by decide : 1 * Ty.i32.bytes ≤ 16)
    | _ => decide
  cases x with
  | fpr d | scalar d _ => exact hdatum d
  | pair => decide
  | elements v => cases v <;> decide

theorem length_fits (x : Item) (arch : Arch) : x.count * x.ty.bytes ≤ 2 ^ arch.word.ty.bits := by
  refine Nat.le_trans x.length_le ?_
  cases arch <;> decide

end Item

/-! ## Accesses -/

/-- A floating-point or vector-scalar load or store. -/
structure Move where
  item : Item
  store : Bool := false
  update : Bool := false
  deriving DecidableEq

namespace Move

/-- Accesses that a word cannot ask for: updates without a base register, and pairs that start at
an odd register. -/
def Clashes (x : Move) (w : Insn) : Prop :=
  (x.update = true ∧ w.ra = 0) ∨ (x.item = .pair ∧ w.rd % 2 ≠ 0)

instance (x : Move) (w : Insn) : Decidable (x.Clashes w) := inferInstanceAs (Decidable (_ ∨ _))

section

variable (x : Move) (env : Env) (I : Interp M) (w : Insn) (a : BitVec env.arch.word.ty.bits)
  (bytes : WordMemory env.arch.word.ty.bits) (σ : GuestState)

/-- The pieces in memory. -/
def fetched (i : Nat) : BitVec x.item.ty.bits :=
  bytes.read env.host (a + .ofNat _ (i * x.item.ty.bytes)) x.item.ty

theorem fetched_zero : x.fetched env a bytes 0 = bytes.read env.host a x.item.ty := by
  rw [fetched, Nat.zero_mul, BitVec.add_zero]

/-- Memory behind the access. -/
def bytesAfter : WordMemory env.arch.word.ty.bits :=
  if x.store then
    bytes.writeAll env.host a x.item.ty (x.item.held I env.arch env.host w σ) x.item.count
  else bytes

/-- The registers hold what was loaded. -/
def registersAfter : GuestState :=
  if x.store then σ else x.item.given I env.arch env.host w σ (x.fetched env a bytes)

/-- The registers hold what was loaded, and an updated register holds the address. -/
def stateAfter : GuestState :=
  let σ' := x.registersAfter env I w a bytes σ
  if x.update then σ'.withOperand env.arch I.order w.ra a else σ'

end

/-- An access to an address leaves so. A load does not touch memory. -/
structure Done (x : Move) (env : Env) (I : Interp M)
    (view : M → WordMemory env.arch.word.ty.bits) (w : Insn) (a : BitVec env.arch.word.ty.bits)
    (memory : M) (σ : GuestState) (out : Left M) : Prop where
  pc : out.pc = env.nia
  kind : out.kind = .boring
  bytes : view out.memory = x.bytesAfter env I w a (view memory) σ
  loads : x.store = false → out.memory = memory
  state : out.state = x.stateAfter env I w a (view memory) σ

end Move

end FloatingPoint

end PowerLift
