import PowerLift.Proofs.Frames
import PowerLift.Proofs.VectorMoves

/-!
# Vector instructions that do not saturate

All other vector instructions of integers leave the vector status as it is: they write a vector
register, memory or a condition field.
-/

namespace PowerLift

open Lift (exec)
open Point (Step Since Typed)
open PowerLift.Expr (un bin)

variable {M : Type} {I : Interp M} {env : Env} {w : Insn} {c : Point M} {s : SpecialSlot}

/-- A vector register that is filled is apart from the slot. -/
theorem Comes.spares {x : Lift Unit} {φ : Prop} {i : Nat} {v : BitVec 128}
    (hx : Comes env I c x φ (Filled env I i v c.state c.memory)) (hi : i < 64) :
    Spares env I s c x φ := by
  refine hx.mono Iff.rfl fun next flow hflow => ?_
  rw [← env.leave_state next flow, hflow.2]
  exact GuestState.held_withVsr hi s v

theorem Point.Typed.vr (i : Nat) : c.Typed I (.vr env.arch i) .v128 := .get _ _

namespace Spares

variable {α : Type} {φ : Prop} {a e : Expr} {τ : Ty}

theorem getVr (hlayout : env.layout = env.arch) {i : Nat} (hi : i < 32) {f : Expr → Lift Unit}
    (hf : ∀ e, c.Typed I e .v128 → Spares env I s c (f e) φ) :
    Spares env I s c (Lift.getVr i >>= f) φ :=
  .give (exec_getVr hlayout hi) (hf _ (.vr i))

theorem bindVr (hlayout : env.layout = env.arch) {i : Nat} (hi : i < 32) {f : Expr → Lift Unit}
    (hf : ∀ t c' [Step c c'], c'.Typed I t .v128 → Spares env I s c' (f t) φ) :
    Spares env I s c (Lift.getVr i >>= fun v => Lift.bind v >>= f) φ :=
  .getVr hlayout hi fun _ he => .bind he hf

theorem splitHalves {f : Expr × Expr → Lift Unit} (he : c.Typed I e .v128)
    (hf : ∀ a b c' [Since c c'], c'.Typed I a .i64 → c'.Typed I b .i64 →
      Spares env I s c' (f (a, b)) φ) :
    Spares env I s c (Lift.splitHalves e >>= f) φ := by
  unfold Lift.splitHalves
  simp only [bind_assoc, pure_bind]
  refine .bind he fun t c₁ _ ht => ?_
  refine .bind (ht.un rfl) fun a c₂ _ ha => ?_
  refine .bind (ht.since.un rfl) fun b c₃ _ hb => ?_
  have : Since c₁ c₃ := Since.trans c₂
  have : Since c c₃ := Since.trans c₁
  exact hf a b c₃ ha.since hb

theorem recordLanes {testAll : Bool} (hlayout : env.layout = env.arch)
    (hnext : c.progress.next = .continue) (he : c.Typed I e .v128) :
    Spares env I s c (Lift.recordLanes e testAll) False := by
  unfold Lift.recordLanes
  refine .splitHalves he fun a b c₁ _ ha hb => ?_
  have hnone : c₁.Typed I (un (.cast .zext1to8) (bin .cmpEQ64 (bin .or64 a b) (.u64 0))) .i8 :=
    ((ha.bin hb rfl).bin (.const (.u64 0)) rfl).un rfl
  have hall : c₁.Typed I (un (.cast .zext1to8)
      (bin .cmpEQ64 (bin .and64 a b) (.u64 (.allOnes 64)))) .i8 :=
    ((ha.bin hb rfl).bin (.const (.u64 _)) rfl).un rfl
  have hcr := hnone.bin (.const (.u8 1)) (o := .shl .w8) rfl
  have hsix : Layout.crBase env.arch ≤ Layout.crBase env.layout + 2 * 6 := by
    rw [hlayout]
    exact Nat.le_add_right _ _
  refine .putField (Layout.cr321_eq env.layout (by decide)) hsix ?_ fun c₂ _ => ?_
  · split
    · exact hcr.bin (hall.bin (.const (.u8 3)) (o := .shl .w8) rfl) (o := .or8) rfl
    · exact hcr
  · refine .last (.putField (Layout.cr0_eq env.layout (by decide)) (Nat.le_succ_of_le hsix)
      (.const (.u8 0)) fun c₃ _ => ?_)
    have : Since c₁ c₃ := Since.trans c₂
    have : Since c c₃ := Since.trans c₁
    exact .done (Since.next_eq hnext)

end Spares

namespace VectorInteger

/-! ## Values -/

theorem bitwise?_typed {xo : Nat} {name : String} {a b e : Expr} (ha : c.Typed I a .v128)
    (hb : c.Typed I b .v128) (h : bitwise? xo a b = some (name, e)) : c.Typed I e .v128 := by
  unfold bitwise? at h
  split at h <;> cases h
  case h_1 | h_3 | h_4 => exact ha.bin hb rfl
  case h_2 | h_6 => exact ha.bin (hb.un rfl) rfl
  case h_5 | h_7 | h_8 => exact (ha.bin hb rfl).un rfl

/-! ## Loads and stores -/

section

variable {α : Type} {φ : Prop} {a e : Expr} {τ : Ty}

theorem alignedAddress_spares {align : BitVec 64} (ha : c.Typed I a env.arch.wordTy)
    {f : Expr → Lift Unit} (hf : ∀ e, c.Typed I e env.arch.wordTy → Spares env I s c (f e) φ) :
    Spares env I s c (alignedAddress a align >>= f) φ := by
  unfold alignedAddress
  simp only [bind_assoc, pure_bind]
  exact .give rfl (.give rfl (hf _ (.word (fun _ => rfl) ha (.imm _))))

/-- The low bits of an address, as a byte. -/
theorem narrow_spares {mask : BitVec 64} (ha : c.Typed I a env.arch.wordTy) {f : Expr → Lift Unit}
    (hf : ∀ e, c.Typed I e .i8 → Spares env I s c (f e) φ) :
    Spares env I s c
      (Lift.narrow (bin (.and env.arch.word.width) a (env.imm mask)) .i8 >>= f) φ := by
  have hlow : c.Typed I (bin (.and env.arch.word.width) a (env.imm mask)) env.arch.wordTy :=
    .word (fun _ => rfl) ha (.imm mask)
  have hnarrow : exec env c.progress (Lift.narrow _ (Width.ty .w8)) = _ :=
    exec_narrow Width.noConfusion (Expr.typeOf_of_check (Stage.check_eq_ok.mp hlow.check).2)
  exact .give hnarrow (hf _ hlow.narrowed)

variable (hnext : c.progress.next = .continue)
include hnext

theorem store_ends (ha : c.Typed I a env.arch.wordTy) (he : c.Typed I e τ) (hτ : τ ≠ .i1) :
    Spares env I s c (Lift.store a e) False :=
  .last (.store ha he hτ fun _ _ => .done (Since.next_eq hnext))

variable (hlayout : env.layout = env.arch)
include hlayout

theorem putVr_ends (he : c.Typed I e .v128) : Spares env I s c (Lift.putVr w.rd e) False :=
  .last (.putVr hlayout w.rd_lt he fun _ _ => .done (Since.next_eq hnext))

theorem shiftControl_spares {left : Bool} (ha : c.Typed I a env.arch.wordTy) :
    Spares env I s c (shiftControl w a left) False := by
  unfold shiftControl
  refine .listed fun c₁ _ => .give rfl (.give rfl (narrow_spares ha.since fun t ht => ?_))
  refine putVr_ends (Since.next_eq hnext) hlayout ?_
  cases left <;> exact .bin (.bin (.const (.u64 _)) (.const (.u64 _)) rfl) (ht.un rfl) rfl

theorem load_spares {name : String} (ha : c.Typed I a env.arch.wordTy) :
    Spares env I s c (load w name a) False := by
  unfold load
  refine .listed fun c₁ _ => alignedAddress_spares ha.since fun t ht => ?_
  exact .give rfl (putVr_ends (Since.next_eq hnext) hlayout (.load ht _ _))

theorem store_spares {name : String} (ha : c.Typed I a env.arch.wordTy) :
    Spares env I s c (store w name a) False := by
  unfold store
  refine .listed fun c₁ _ => alignedAddress_spares ha.since fun t ht => ?_
  exact .getVr hlayout w.rd_lt fun v hv =>
    store_ends (Since.next_eq hnext) ht hv (by decide)

theorem storeElement_spares {name : String} {width : Narrow} (ha : c.Typed I a env.arch.wordTy) :
    Spares env I s c (storeElement w name width a) False := by
  unfold storeElement
  refine .listed fun c₁ _ => .give rfl (.give rfl (narrow_spares ha.since fun t ht => ?_))
  refine .getVr hlayout w.rd_lt fun v hv => alignedAddress_spares ha.since fun a' ha' => ?_
  have hshift := ((Typed.const (.u8 (.ofNat 8 (16 - width.bits / 8)))).bin ht
    (o := .sub .w8) rfl).bin (.const (.u8 3)) (o := .shl .w8) rfl
  have hlane := (hv.bin hshift (o := .vector .shrAll) rfl).un (o := .cast .lowVto32) rfl
  cases width with
  | w8 => exact store_ends (Since.next_eq hnext) ha' (hlane.un rfl) (by decide)
  | w16 => exact store_ends (Since.next_eq hnext) ha' (hlane.un rfl) (by decide)
  | w32 => exact store_ends (Since.next_eq hnext) ha' hlane (by decide)

/-- Extended opcodes of vector loads and stores. -/
def accessOpcodes : List Nat := [6, 38, 7, 39, 71, 103, 359, 231, 487, 135, 167, 199]

theorem memory_spares :
    Spares env I s c (memory w) (w.record = true ∨ w.xo10 ∉ accessOpcodes) := by
  unfold memory
  refine .guard (Lift.reservedClear_refuses w _ _) ?_
  refine .give (exec_eaOr0Idx hlayout w.ra_lt w.rb_lt) ?_
  refine .bind (.indexed w.ra w.rb) fun a c₁ _ ha => ?_
  have hnext₁ : c₁.progress.next = .continue := Since.next_eq hnext
  split
  case h_1 | h_2 =>
    next hxo => exact (shiftControl_spares hnext₁ hlayout ha).congr (by simp [hxo, accessOpcodes])
  case h_3 | h_4 | h_5 | h_6 | h_7 =>
    next hxo => exact (load_spares hnext₁ hlayout ha).congr (by simp [hxo, accessOpcodes])
  case h_8 | h_9 =>
    next hxo => exact (store_spares hnext₁ hlayout ha).congr (by simp [hxo, accessOpcodes])
  case h_10 | h_11 | h_12 =>
    next hxo => exact (storeElement_spares hnext₁ hlayout ha).congr (by simp [hxo, accessOpcodes])
  case h_13 =>
    refine Spares.congr (.last (.unrecognized w _)) (iff_of_true trivial ?_)
    simp only [accessOpcodes, List.mem_cons, List.not_mem_nil, or_false, not_or]
    exact ⟨‹_›, ‹_›, ‹_›, ‹_›, ‹_›, ‹_›, ‹_›, ‹_›, ‹_›, ‹_›, ‹_›, ‹_›⟩

/-! ## Comparison and lane arithmetic -/

theorem compare_spares {name : String} {op : VectorOp} (hop : op.signature = .same .v128) :
    Spares env I s c (compare w name op) False := by
  unfold compare
  refine .listed fun c₁ _ => ?_
  refine .getVr hlayout w.ra_lt fun a ha => .getVr hlayout w.rb_lt fun b hb => ?_
  refine .bind (ha.bin hb hop) fun t c₂ _ ht => .putVr hlayout w.rd_lt ht fun c₃ _ => ?_
  have : Since c₁ c₃ := Since.trans c₂
  have : Since c c₃ := Since.trans c₁
  have hnext₃ : c₃.progress.next = .continue := Since.next_eq hnext
  split
  · exact .recordLanes hlayout hnext₃ ht.since
  · exact .done hnext₃

/-- A lane operation that does not saturate. -/
theorem laneOperation_spares {name : String} {op : VectorOp} (hop : op.signature = .same .v128) :
    Spares env I s c (laneOperation w name op none) False := by
  unfold laneOperation
  refine .listed fun c₁ _ => .bindVr hlayout w.ra_lt fun a c₂ _ ha => ?_
  refine .bindVr hlayout w.rb_lt fun b c₃ _ hb => .bind (ha.since.bin hb hop) fun t c₄ _ ht => ?_
  have : Since c₂ c₄ := Since.trans c₃
  have : Since c₁ c₄ := Since.trans c₂
  have : Since c c₄ := Since.trans c₁
  exact .putVr hlayout w.rd_lt ht fun c₅ _ =>
    have : Since c c₅ := Since.trans c₄
    .done (Since.next_eq hnext)

theorem product_spares {name : String} {sign : Sign} {width : Narrow} {odd : Bool} :
    Spares env I s c (product w name sign width odd) False := by
  unfold product
  refine .listed fun c₁ _ => ?_
  refine .getVr hlayout w.ra_lt fun a ha => .getVr hlayout w.rb_lt fun b hb => ?_
  refine putVr_ends (Since.next_eq hnext) hlayout ?_
  cases odd with
  | false => exact ha.bin hb rfl
  | true => exact (ha.bin (.const (.u8 _)) rfl).bin (hb.bin (.const (.u8 _)) rfl) rfl

/-! ## Forms with an eleven-bit extended opcode -/

theorem splatImmediate_spares {name : String} {width : Narrow} :
    Spares env I s c (splatImmediate w name width >>= Lift.putVr w.rd) (w.rb ≠ 0) := by
  unfold splatImmediate
  simp only [bind_assoc, pure_bind]
  refine Spares.congr (.guard (Lift.reservedZero_refuses w _ _) (.listed fun c₁ _ => ?_))
    (or_iff_left id)
  refine putVr_ends (Since.next_eq hnext) hlayout ?_
  cases width with
  | w8 => exact .un (.const (.u8 _)) rfl
  | w16 => exact .un (.const (.u16 _)) rfl
  | w32 => exact .un (.const (.u32 _)) rfl

theorem countLanes_spares {name : String} {op : VectorOp}
    (hop : op.signature = .unary .v128 .v128) :
    Spares env I s c (countLanes w name op >>= Lift.putVr w.rd) (w.ra ≠ 0) := by
  unfold countLanes
  simp only [bind_assoc, pure_bind]
  refine Spares.congr (.guard (Lift.reservedZero_refuses w _ _) (.listed fun c₁ _ => ?_))
    (or_iff_left id)
  exact .getVr hlayout w.rb_lt fun b hb => putVr_ends (Since.next_eq hnext) hlayout (hb.un hop)

end

theorem otherForm_spares (hI : I.Vectors) (s : SpecialSlot) (w : Insn) :
    ∃ φ, ∀ (env : Env) (c : Point M), env.layout = env.arch → c.progress.next = .continue →
      Spares env I s c (otherForm w >>= Lift.putVr w.rd) φ := by
  have hrd : w.rd + 32 < 64 := Nat.add_lt_add_right w.rd_lt 32
  unfold otherForm
  dsimp only
  split
  case h_1 | h_2 | h_3 | h_4 | h_5 | h_6 | h_7 | h_8 =>
    next hxo =>
      refine ⟨False, fun env c hlayout hnext => ?_⟩
      simp only [bind_assoc]
      refine .getVr hlayout w.ra_lt fun a ha => .getVr hlayout w.rb_lt fun b hb => ?_
      have hsome : ∃ name e, bitwise? w.vxXo a b = some (name, e) := by
        rw [hxo]
        exact ⟨_, _, rfl⟩
      obtain ⟨name, e, hsome⟩ := hsome
      simp only [hsome, bind_assoc, pure_bind]
      exact .listed fun c₁ _ =>
        putVr_ends (Since.next_eq hnext) hlayout (bitwise?_typed ha hb hsome).since
  case h_9 => exact ⟨_, fun env c hl hn => (shiftLeft_comes hI hl hn _ false).spares hrd⟩
  case h_10 => exact ⟨_, fun env c hl hn => (shiftRight_comes hI hl hn _ false).spares hrd⟩
  case h_11 => exact ⟨_, fun env c hl hn => (shiftLeft_comes hI hl hn _ true).spares hrd⟩
  case h_12 => exact ⟨_, fun env c hl hn => (shiftRight_comes hI hl hn _ true).spares hrd⟩
  case h_13 | h_14 | h_15 =>
    exact ⟨_, fun env c hl hn => (splatElement_comes hI hl hn _ _).spares hrd⟩
  case h_16 | h_17 | h_18 =>
    exact ⟨_, fun env c hlayout hnext => splatImmediate_spares hnext hlayout⟩
  case h_19 | h_20 | h_21 | h_22 | h_23 | h_24 =>
    exact ⟨_, fun env c hl hn => (unpack_comes hI hl hn _ _ _).spares hrd⟩
  case h_25 | h_26 => exact ⟨_, fun env c hl hn => (unpackPixels_comes hI hl hn _ _).spares hrd⟩
  case h_27 =>
    simp only [bind_assoc]
    exact ⟨_, fun env c hl hn => (packPixels_comes hI hl hn).spares hrd⟩
  case h_28 | h_29 | h_30 | h_31 | h_32 | h_33 | h_34 | h_35 =>
    exact ⟨_, fun env c hlayout hnext => countLanes_spares hnext hlayout rfl⟩
  case h_36 => exact ⟨_, fun env c hlayout hnext => .unrecognized w _⟩

/-- Only saturating operations compare their result with a modular one. -/
theorem laneOperation?_modular {xo : Nat} {name : String} {op : VectorOp}
    {modular : Option VectorOp} (hs : Saturating.ofXo? xo = none)
    (h : laneOperation? xo = some (name, op, modular)) :
    modular = none ∧ op.signature = .same .v128 := by
  unfold laneOperation? at h
  split at h <;> cases h <;> first | exact ⟨rfl, rfl⟩ | cases hs

theorem pack?_saturates {xo : Nat} (hs : Saturating.ofXo? xo = none) : pack? xo = none := by
  unfold pack?
  split <;> first | rfl | cases hs

theorem twoOperands_spares (hI : I.Vectors) (s : SpecialSlot)
    (hs : Saturating.ofXo? w.vxXo = none) :
    ∃ φ, ∀ (env : Env) (c : Point M), env.layout = env.arch → c.progress.next = .continue →
      Spares env I s c (twoOperands w) φ := by
  unfold twoOperands
  split
  next name op modular hlane =>
    obtain ⟨rfl, hop⟩ := laneOperation?_modular hs hlane
    exact ⟨_, fun env c hlayout hnext => laneOperation_spares hnext hlayout hop⟩
  next =>
    rw [pack?_saturates hs]
    dsimp only
    split
    · exact ⟨_, fun env c hlayout hnext => product_spares hnext hlayout⟩
    · exact otherForm_spares hI s w

theorem threeOperands_spares (hI : I.Vectors) (s : SpecialSlot) (hxo : 42 ≤ w.vaXo ∧ w.vaXo ≤ 44) :
    ∃ φ, ∀ (env : Env) (c : Point M), env.layout = env.arch → c.progress.next = .continue →
      Spares env I s c (threeOperands w) φ := by
  have hrd : w.rd + 32 < 64 := Nat.add_lt_add_right w.rd_lt 32
  obtain h | h | h : w.vaXo = 42 ∨ w.vaXo = 43 ∨ w.vaXo = 44 := by omega
  · exact ⟨_, fun env c hl hn => (select_comes hI hl hn h).spares hrd⟩
  · exact ⟨_, fun env c hl hn => (permute_comes hI hl hn h).spares hrd⟩
  · exact ⟨_, fun env c hl hn => (shiftDouble_comes hI hl hn h).spares hrd⟩

/-- The words of the family that do not saturate. -/
theorem lift_spares (hI : I.Vectors) (s : SpecialSlot)
    (hs : w.opcode = 4 → Saturating.ofXo? w.vxXo = none) :
    ∃ φ, ∀ (env : Env) (c : Point M), env.layout = env.arch → c.progress.next = .continue →
      Spares env I s c (lift w) φ := by
  unfold lift
  split
  case h_1 => exact ⟨_, fun env c hlayout hnext => memory_spares hnext hlayout⟩
  case h_2 =>
    next hopcode =>
      split
      next hxo => exact threeOperands_spares hI s hxo
      next =>
        split
        next name op hop =>
          exact ⟨_, fun env c hlayout hnext =>
            compare_spares hnext hlayout (comparison?_signature hop)⟩
        next => exact twoOperands_spares hI s (hs hopcode)
  case h_3 => exact ⟨_, fun env c hlayout hnext => .last (.unrecognized w _)⟩

end VectorInteger

end PowerLift
