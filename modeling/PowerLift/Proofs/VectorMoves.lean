import PowerLift.Proofs.Pixels
import PowerLift.Proofs.SaturatingForms

/-!
# Instructions that rearrange vectors

Permutes, selects, splats, shifts of whole registers, products of odd elements, unpacks and pixel
forms write one register, with what their operands held before. Elements count from the most
significant end, and the target may be one of the operands.
-/

namespace PowerLift

open Lift (exec)
open Point (Has Knows Step Since)
open PowerLift.Expr (un bin)

variable {M : Type} {I : Interp M} {env : Env} {w : Insn} {c : Point M}

/-! ## What the instructions are to do -/

/-- What an instruction that rearranges vectors asks for and does. -/
structure Movement where
  gates : List Gate
  /-- A field that has to be zero. -/
  reserved : Nat
  /-- The register that is written. -/
  target : Nat
  /-- What is written, by what registers hold. -/
  value : (Nat → BitVec 128) → BitVec 128

/-- The extended opcodes that copy an element to all. -/
def Narrow.splatXo : Narrow → Nat
  | w8 => 524
  | w16 => 588
  | w32 => 652

/-- The extended opcodes of products of odd elements. -/
def Narrow.oddProductXo : Narrow → Sign → Nat
  | w8, .unsigned => 8
  | w16, .unsigned => 72
  | w32, .unsigned => 136
  | w8, .signed => 264
  | w16, .signed => 328
  | w32, .signed => 392

/-- The extended opcodes of unpacks, of the high half of a vector or of the low one. -/
def Narrow.unpackXo : Narrow → Bool → Nat
  | w8, true => 526
  | w8, false => 654
  | w16, true => 590
  | w16, false => 718
  | w32, true => 1614
  | w32, false => 1742

/-- What operations on double words, or products of words, ask for. -/
def Narrow.gates : Narrow → List Gate
  | w32 => [.altivec, .isa207]
  | _ => [.altivec]

namespace Insn

/-- The bits of a step by which a register is shifted. -/
def shiftUnit (octets : Bool) : Nat := if octets then 8 else 1

/-- The steps by which the last byte of `y` says that a register is shifted. -/
def shiftAmount (octets : Bool) (y : BitVec 128) : Nat :=
  let last := (elementAt 8 y 15).toNat
  if octets then last / 8 % 16 else last % 8

/-- The instructions that rearrange vectors. -/
inductive Moves (w : Insn) : Movement → Prop where
  | select (hopcode : w.opcode = 4) (hxo : w.vaXo = 42) :
      w.Moves ⟨[.altivec], 0, w.rd + 32, fun v =>
        bitSelected (v (w.ra + 32)) (v (w.rb + 32)) (v (w.rcField + 32))⟩
  | permute (hopcode : w.opcode = 4) (hxo : w.vaXo = 43) :
      w.Moves ⟨[.altivec], 0, w.rd + 32, fun v =>
        gathered (v (w.ra + 32)) (v (w.rb + 32)) (v (w.rcField + 32))⟩
  | permuteXor (hopcode : w.opcode = 4) (hxo : w.vaXo = 45) :
      w.Moves ⟨[.altivec, .isa207], 0, w.rd + 32, fun v =>
        crossed (v (w.ra + 32)) (v (w.rb + 32)) (v (w.rcField + 32))⟩
  | shiftDouble (hopcode : w.opcode = 4) (hxo : w.vaXo = 44) :
      w.Moves ⟨[.altivec], w.slice 21 1, w.rd + 32, fun v =>
        window 8 (v (w.ra + 32)) (v (w.rb + 32)) (w.slice 22 4)⟩
  | splat (width : Narrow) (hopcode : w.opcode = 4) (hxo : w.vxXo = width.splatXo) :
      w.Moves ⟨[.altivec], w.slice 11 (5 - width.indexBits), w.rd + 32, fun v =>
        ofElements width.bits fun _ => elementAt width.bits (v (w.rb + 32))
          (w.slice (16 - width.indexBits) width.indexBits)⟩
  | shiftLeft (octets : Bool) (hopcode : w.opcode = 4)
      (hxo : w.vxXo = if octets then 1036 else 452) :
      w.Moves ⟨[.altivec], 0, w.rd + 32, fun v =>
        window (shiftUnit octets) (v (w.ra + 32)) 0 (shiftAmount octets (v (w.rb + 32)))⟩
  | shiftRight (octets : Bool) (hopcode : w.opcode = 4)
      (hxo : w.vxXo = if octets then 1100 else 708) :
      w.Moves ⟨[.altivec], 0, w.rd + 32, fun v =>
        window (shiftUnit octets) 0 (v (w.ra + 32))
          (128 / shiftUnit octets - shiftAmount octets (v (w.rb + 32)))⟩
  | oddProduct (s : Sign) (width : Narrow) (hopcode : w.opcode = 4)
      (hxo : w.vxXo = width.oddProductXo s) :
      w.Moves ⟨width.gates, 0, w.rd + 32, fun v =>
        oddProducts s width (v (w.ra + 32)) (v (w.rb + 32))⟩
  | unpack (width : Narrow) (high : Bool) (hopcode : w.opcode = 4)
      (hxo : w.vxXo = width.unpackXo high) :
      w.Moves ⟨width.gates, w.ra, w.rd + 32, fun v => unpacked width high (v (w.rb + 32))⟩
  | packPixels (hopcode : w.opcode = 4) (hxo : w.vxXo = 782) :
      w.Moves ⟨[.altivec], 0, w.rd + 32, fun v => packedPixels (v (w.ra + 32)) (v (w.rb + 32))⟩
  | unpackPixels (high : Bool) (hopcode : w.opcode = 4)
      (hxo : w.vxXo = if high then 846 else 974) :
      w.Moves ⟨[.altivec], w.ra, w.rd + 32, fun v => unpackedPixels high (v (w.rb + 32))⟩
  | selectScalar (hopcode : w.opcode = 60) (hxo : w.bits 4 2 = 3) :
      w.Moves ⟨[.vsx], 0, w.xt, fun v => bitSelected (v w.xa) (v w.xb) (v w.xc)⟩
  | splatScalar (hopcode : w.opcode = 60) (hxo : w.bits 2 9 = 164) :
      w.Moves ⟨[.vsx], w.slice 11 3, w.xt, fun v =>
        ofElements 32 fun _ => elementAt 32 (v w.xb) w.xxUim⟩
  | shiftScalar (hopcode : w.opcode = 60) (hxo : w.bits 10 1 = 0 ∧ w.bits 3 5 = 2) :
      w.Moves ⟨[.vsx], 0, w.xt, fun v => window 32 (v w.xa) (v w.xb) w.xxDm⟩
  | permuteScalar (hopcode : w.opcode = 60) (hxo : w.bits 10 1 = 0 ∧ w.bits 3 5 = 10) :
      w.Moves ⟨[.vsx], 0, w.xt, fun v => ofElements 64 fun i =>
        if i = 0 then elementAt 64 (v w.xa) (w.xxDm / 2) else elementAt 64 (v w.xb) (w.xxDm % 2)⟩

theorem shiftUnit_dvd (octets : Bool) : shiftUnit octets ∣ 128 := by
  cases octets <;> decide

theorem shiftAmount_lt (octets : Bool) (y : BitVec 128) :
    shiftUnit octets * shiftAmount octets y < 128 ∧
      shiftAmount octets y < 128 / shiftUnit octets := by
  cases octets <;> simp only [shiftUnit, shiftAmount, if_true, Bool.false_eq_true, if_false]
  all_goals omega

end Insn

/-! ## Values -/

namespace Point

/-- A register that was not written since. -/
theorem knows_vsr_of (env : Env) {σ : GuestState} (hstate : c.state = σ) (i : Nat) :
    c.Knows I (· = σ) (.vsr env.arch i) ⟨.v128, σ.vsr env.arch I.order i⟩ :=
  hstate ▸ knows_vsr i

namespace Knows

variable {S : GuestState → Prop} {a b d : Expr} {x y z : BitVec 128}

theorem blend (hI : I.Vectors) (ha : c.Knows I S a ⟨.v128, x⟩) (hb : c.Knows I S b ⟨.v128, y⟩)
    (hd : c.Knows I S d ⟨.v128, z⟩) :
    c.Knows I S (.bin (.vector .or) (.bin (.vector .and) a (.un (.vector .not) d))
      (.bin (.vector .and) b d)) ⟨.v128, blended x y z⟩ := by
  have hkept := ha.two hI .and rfl (hd.complement hI)
  have htaken := hb.two hI .and rfl hd
  rw [blended]
  exact hkept.two hI .or rfl htaken

theorem permuteBytes (hI : I.Vectors) (ha : c.Knows I S a ⟨.v128, x⟩)
    (hd : c.Knows I S d ⟨.v128, z⟩) :
    c.Knows I S (VectorInteger.permuteBytes a d) ⟨.v128, permuted x (z ^^^ everyByte 0x0F)⟩ :=
  ha.two hI .permute rfl (hd.two hI .xor rfl (knows_splat hI .w8 0x0F))

variable {k : Nat}

/-- An amount below the width of a vector is itself as a byte. -/
theorem toNat_ofNat_of_lt (hk : k < 128) : (BitVec.ofNat 8 k).toNat = k := by
  rw [BitVec.toNat_ofNat]
  exact Nat.mod_eq_of_lt (Nat.lt_trans hk (by decide))

theorem shiftLeft (hI : I.Vectors) (ha : c.Knows I S a ⟨.v128, x⟩)
    (hd : c.Knows I S d ⟨.i8, .ofNat 8 k⟩) (hk : k < 128) :
    c.Knows I S (.bin (.vector .shlAll) a d) ⟨.v128, x <<< k⟩ := by
  have hnat : (BitVec.ofNat 8 k).toNat = k := toNat_ofNat_of_lt hk
  refine (ha.bin hd rfl (hI.shlAll x _ (hnat.symm ▸ hk))).congr ?_
  exact congrArg (fun n => Value.mk .v128 (x <<< n)) hnat

theorem shiftRight (hI : I.Vectors) (ha : c.Knows I S a ⟨.v128, x⟩)
    (hd : c.Knows I S d ⟨.i8, .ofNat 8 k⟩) (hk : k < 128) :
    c.Knows I S (.bin (.vector .shrAll) a d) ⟨.v128, x >>> k⟩ := by
  have hnat : (BitVec.ofNat 8 k).toNat = k := toNat_ofNat_of_lt hk
  refine (ha.bin hd rfl (hI.shrAll x _ (hnat.symm ▸ hk))).congr ?_
  exact congrArg (fun n => Value.mk .v128 (x >>> n)) hnat

/-- Two shifts that put the elements of `x` from `k` on before those of `y`. -/
theorem shiftPair (hI : I.Vectors) {n : Nat} (hn : n ∣ 128) (hpos : 0 < k) (hk : k < 128 / n)
    (ha : c.Knows I S a ⟨.v128, x⟩) (hb : c.Knows I S b ⟨.v128, y⟩) :
    c.Knows I S (.bin (.vector .or) (.bin (.vector .shlAll) a (.u8 (.ofNat 8 (n * k))))
      (.bin (.vector .shrAll) b (.u8 (.ofNat 8 (n * (128 / n - k)))))) ⟨.v128, window n x y k⟩ := by
  have hwhole : n * (128 / n) = 128 := Nat.mul_div_cancel' hn
  have hlt {i : Nat} (hi : i < 128 / n) : n * i < 128 := by
    rw [← hwhole]
    exact Nat.mul_lt_mul_of_pos_left hi (pos_of_dvd hn)
  rw [window_eq hn (Nat.le_of_lt hk)]
  exact (ha.shiftLeft hI (.const (.u8 _)) (hlt hk)).two hI .or rfl
    (hb.shiftRight hI (.const (.u8 _)) (hlt (by omega)))

/-- The amount by which a register is shifted. -/
theorem shiftAmount (hI : I.Vectors) (hb : c.Knows I S b ⟨.v128, y⟩) (octets : Bool) :
    c.Knows I S (.un (.cast .low32to8) (.bin .and32 (.un (.cast .lowVto32) b)
        (.u32 (if octets then 0x78 else 0x7))))
      ⟨.i8, .ofNat 8 (Insn.shiftUnit octets * Insn.shiftAmount octets y)⟩ := by
  let mask : BitVec 32 := if octets then 0x78 else 0x7
  have hlast : y.setWidth 8 = elementAt 8 y 15 := setWidth_eq_elementAt
  have hmasked (b : BitVec 8) : b &&& mask.setWidth 8 = .ofNat 8 (Insn.shiftUnit octets *
      if octets then b.toNat / 8 % 16 else b.toNat % 8) := by
    revert b
    cases octets <;> decide
  have hamount : (y.setWidth 32 &&& mask).setWidth 8 =
      .ofNat 8 (Insn.shiftUnit octets * Insn.shiftAmount octets y) := by
    rw [BitVec.setWidth_and, BitVec.setWidth_setWidth_of_le _ (by decide), hlast, hmasked]
    rfl
  refine (((hb.un rfl (hI.lowVto32 y)).bin (.const (.u32 mask)) rfl (hI.and .w32 _ _)).un rfl
    (hI.cast .low32to8 rfl .i32 rfl _)).congr ?_
  exact congrArg (Value.mk .i8) hamount

/-- An element, in the low bits of a word. -/
theorem element (hI : I.Vectors) (ha : c.Knows I S a ⟨.v128, x⟩) (width : Narrow) (i : Nat) :
    c.Knows I S (VectorInteger.element width.width a i)
      ⟨.i32, (x >>> (width.bits * (128 / width.bits - 1 - i))).setWidth 32⟩ := by
  have hlanes : width.width.lanes = 128 / width.bits := by cases width <;> rfl
  have hlt : width.bits * (128 / width.bits - 1 - i) < 128 := by
    have hpos := pos_of_dvd width.bits_dvd
    have hplace := mul_add_lt width.bits_dvd (i := 128 / width.bits - 1 - i) (j := 0) (by
      have := Nat.div_pos (Nat.le_of_dvd (by decide) width.bits_dvd) hpos
      omega) hpos
    exact hplace
  unfold VectorInteger.element
  rw [hlanes]
  dsimp only
  refine .un ?_ rfl (hI.lowVto32 _)
  split
  next hzero =>
    have hzero : width.bits * (128 / width.bits - 1 - i) = 0 := hzero
    rw [hzero, BitVec.ushiftRight_zero]
    exact ha
  next => exact ha.shiftRight hI (.const (.u8 _)) hlt

/-- An element in every lane. -/
theorem splatElement (hI : I.Vectors) (ha : c.Knows I S a ⟨.v128, x⟩) (width : Narrow) (i : Nat) :
    c.Knows I S (.un (.vector (.dup width)) (match width with
        | .w8 => .un (.cast .low32to8) (VectorInteger.element width.width a i)
        | .w16 => .un (.cast .low32to16) (VectorInteger.element width.width a i)
        | .w32 => VectorInteger.element width.width a i))
      ⟨.v128, ofElements width.bits fun _ => elementAt width.bits x i⟩ := by
  have hword := ha.element hI width i
  have hcut {n : Nat} (hn : n ≤ 32) :
      (⟨.v128, ofLanes n fun _ =>
        ((x >>> (n * (128 / n - 1 - i))).setWidth 32).setWidth n⟩ : Value) =
        ⟨.v128, ofElements n fun _ => elementAt n x i⟩ := by
    rw [setWidth_shiftRight hn]
    rfl
  cases width with
  | w8 =>
      refine ((hword.un rfl (hI.cast .low32to8 rfl .i32 rfl _)).un rfl (hI.dup .w8 _)).congr ?_
      exact hcut (by decide)
  | w16 =>
      refine ((hword.un rfl (hI.cast .low32to16 rfl .i32 rfl _)).un rfl (hI.dup .w16 _)).congr ?_
      exact hcut (by decide)
  | w32 =>
      refine (hword.un rfl (hI.dup .w32 _)).congr (Eq.trans ?_ (hcut (by decide)))
      exact congrArg (fun y : BitVec 32 => (⟨.v128, ofLanes 32 fun _ => y⟩ : Value))
        (BitVec.setWidth_eq _).symm

end Knows

end Point

/-! ## Endings -/

/-- Nothing but a register was written, and the next instruction follows. -/
def Filled (env : Env) (I : Interp M) (i : Nat) (x : BitVec 128) (σ : GuestState) (memory : M) :
    Continuation → Flow M → Prop := fun next flow =>
  next = .continue ∧
    env.leave I next flow = ⟨env.nia, .boring, memory, σ.withVsr env.arch I.order i x⟩

section

variable {e : Expr} {x : BitVec 128} {σ : GuestState} {memory : M} {i : Nat}
  (hlayout : env.layout = env.arch) (hnext : c.progress.next = .continue)
  (hstate : c.state = σ) (hmemory : c.memory = memory)
include hlayout hnext hstate hmemory

theorem Comes.fillVsr (hi : i < 64) (he : c.Has I e ⟨.v128, x⟩) :
    Comes env I c (Lift.putVsr i e) False (Filled env I i x σ memory) := by
  subst hstate hmemory
  refine .last (.putVsr hlayout hi he fun c' _ hstate hmemory => .done (Since.next_eq hnext) ?_)
  refine ⟨rfl, ?_⟩
  change (⟨env.nia, .boring, c'.memory, c'.state⟩ : Left M) = _
  rw [hmemory, hstate]

theorem Comes.fillVr (he : c.Has I e ⟨.v128, x⟩) :
    Comes env I c (Lift.putVr w.rd e) False (Filled env I (w.rd + 32) x σ memory) := by
  have hrd := w.rd_lt
  rw [Lift.putVr_eq hrd]
  exact .fillVsr hlayout hnext hstate hmemory (by omega) he

end

/-! ## Instructions with three operands -/

section

variable (hI : I.Vectors) (hlayout : env.layout = env.arch) (hnext : c.progress.next = .continue)
include hI hlayout hnext

theorem VectorInteger.select_comes (hxo : w.vaXo = 42) :
    Comes env I c (threeOperands w) False (Filled env I (w.rd + 32)
      (bitSelected (c.state.vsr env.arch I.order (w.ra + 32))
        (c.state.vsr env.arch I.order (w.rb + 32)) (c.state.vsr env.arch I.order (w.rcField + 32)))
      c.state c.memory) := by
  unfold threeOperands
  refine .give (exec_getVr hlayout w.ra_lt) (.give (exec_getVr hlayout w.rb_lt) ?_)
  simp only [hxo, pure_bind]
  refine .noted fun c₁ _ hstate₁ hmemory₁ => ?_
  refine .bindVr hlayout w.rcField_lt fun t c₂ _ hstate₂ hmemory₂ ht => ?_
  have : Since c c₂ := Since.trans c₁
  have hstate : c₂.state = c.state := hstate₂.trans hstate₁
  have hvalue := (Point.knows_vsr_of env hstate (w.ra + 32)).blend hI
    (Point.knows_vsr_of env hstate (w.rb + 32)) ht
  rw [blended_eq_bitSelected, hstate₁] at hvalue
  exact .fillVr hlayout (Since.next_eq hnext) hstate (hmemory₂.trans hmemory₁) (hvalue.has hstate)

theorem VectorInteger.permute_comes (hxo : w.vaXo = 43) :
    Comes env I c (threeOperands w) False (Filled env I (w.rd + 32)
      (gathered (c.state.vsr env.arch I.order (w.ra + 32))
        (c.state.vsr env.arch I.order (w.rb + 32)) (c.state.vsr env.arch I.order (w.rcField + 32)))
      c.state c.memory) := by
  unfold threeOperands
  refine .give (exec_getVr hlayout w.ra_lt) (.give (exec_getVr hlayout w.rb_lt) ?_)
  simp only [hxo, pure_bind]
  refine .noted fun c₁ _ hstate₁ hmemory₁ => ?_
  refine .bindVr hlayout w.rcField_lt fun t c₂ _ hstate₂ hmemory₂ ht => ?_
  have hmask {S : GuestState → Prop} := ((ht (S := S)).two hI (.shl .w8) rfl
    (Point.knows_splat hI .w8 3)).two hI (.sar .w8) rfl (Point.knows_splat hI .w8 7)
  refine .bind hmask.always fun mask c₃ _ hstate₃ hmemory₃ hmask => ?_
  have : Since c₁ c₃ := Since.trans c₂
  have : Since c c₃ := Since.trans c₁
  have hstate : c₃.state = c.state := hstate₃.trans (hstate₂.trans hstate₁)
  have hvalue := ((Point.knows_vsr_of env hstate (w.ra + 32)).permuteBytes hI ht.since).blend hI
    ((Point.knows_vsr_of env hstate (w.rb + 32)).permuteBytes hI ht.since) hmask
  have hgathered := hvalue.congr (congrArg (Value.mk .v128) blended_permuted)
  rw [hstate₁] at hgathered
  exact .fillVr hlayout (Since.next_eq hnext) hstate (hmemory₃.trans (hmemory₂.trans hmemory₁))
    (hgathered.has hstate)

theorem Cipher.permuteXor_comes :
    Comes env I c (permuteXor w) False (Filled env I (w.rd + 32)
      (crossed (c.state.vsr env.arch I.order (w.ra + 32))
        (c.state.vsr env.arch I.order (w.rb + 32)) (c.state.vsr env.arch I.order (w.rcField + 32)))
      c.state c.memory) := by
  unfold permuteXor
  refine .noted fun c₁ _ hstate₁ hmemory₁ => ?_
  refine .bindVr hlayout w.rcField_lt fun t c₂ _ hstate₂ hmemory₂ ht => ?_
  refine .give (exec_getVr hlayout w.ra_lt) (.give (exec_getVr hlayout w.rb_lt) ?_)
  have : Since c c₂ := Since.trans c₁
  have hstate : c₂.state = c.state := hstate₂.trans hstate₁
  have hhigh := (ht (S := (· = c.state))).two hI (.shr .w8) rfl (Point.knows_splat hI .w8 4)
  have hlow := (ht (S := (· = c.state))).two hI .and rfl (Point.knows_splat hI .w8 0x0F)
  have hvalue := ((Point.knows_vsr_of env hstate (w.ra + 32)).permuteBytes hI hhigh).two hI .xor rfl
    ((Point.knows_vsr_of env hstate (w.rb + 32)).permuteBytes hI hlow)
  have hcrossed := hvalue.congr (congrArg (Value.mk .v128) permuted_xor_permuted)
  rw [hstate₁] at hcrossed
  exact .fillVr hlayout (Since.next_eq hnext) hstate (hmemory₂.trans hmemory₁)
    (hcrossed.has hstate)

theorem VectorInteger.shiftDouble_comes (hxo : w.vaXo = 44) :
    Comes env I c (threeOperands w) (w.slice 21 1 ≠ 0) (Filled env I (w.rd + 32)
      (window 8 (c.state.vsr env.arch I.order (w.ra + 32))
        (c.state.vsr env.arch I.order (w.rb + 32)) (w.slice 22 4)) c.state c.memory) := by
  have hn : w.slice 22 4 < 16 := w.bits_lt 6 4
  unfold threeOperands
  refine .give (exec_getVr hlayout w.ra_lt) (.give (exec_getVr hlayout w.rb_lt) ?_)
  simp only [hxo]
  refine (Comes.guard (Lift.reservedZero_refuses w _ _) fun _ => .noted fun c₁ _ hstate₁ hmemory₁ =>
    ?_).congr (or_iff_left id)
  have ha := Point.knows_vsr_of (I := I) env hstate₁ (w.ra + 32)
  have hb := Point.knows_vsr_of (I := I) env hstate₁ (w.rb + 32)
  split
  next hzero =>
    rw [hzero, window_zero (by decide)]
    exact .fillVr hlayout (Since.next_eq hnext) hstate₁ hmemory₁ (ha.has hstate₁)
  next hpos =>
    exact .fillVr hlayout (Since.next_eq hnext) hstate₁ hmemory₁
      ((ha.shiftPair hI (by decide) (Nat.pos_of_ne_zero hpos) hn hb).has hstate₁)

/-! ## Forms with an eleven-bit extended opcode -/

theorem VectorInteger.splatElement_comes (name : String) (width : Narrow) :
    Comes env I c (splatElement w name width >>= Lift.putVr w.rd)
      (w.slice 11 (5 - width.indexBits) ≠ 0) (Filled env I (w.rd + 32)
        (ofElements width.bits fun _ =>
          elementAt width.bits (c.state.vsr env.arch I.order (w.rb + 32))
            (w.slice (16 - width.indexBits) width.indexBits)) c.state c.memory) := by
  unfold splatElement
  simp only [bind_assoc, pure_bind]
  refine (Comes.guard (Lift.reservedZero_refuses w _ _) fun _ => .noted fun c₁ _ hstate₁ hmemory₁ =>
    ?_).congr (or_iff_left id)
  refine .give (exec_getVr hlayout w.rb_lt) ?_
  have hb := Point.knows_vsr_of (I := I) env hstate₁ (w.rb + 32)
  exact .fillVr hlayout (Since.next_eq hnext) hstate₁ hmemory₁
    ((hb.splatElement hI width _).has hstate₁)

theorem VectorInteger.shiftLeft_comes (name : String) (octets : Bool) :
    Comes env I c (shiftAll w name .shlAll (if octets then 0x78 else 0x7) >>= Lift.putVr w.rd) False
      (Filled env I (w.rd + 32) (window (Insn.shiftUnit octets)
        (c.state.vsr env.arch I.order (w.ra + 32)) 0
        (Insn.shiftAmount octets (c.state.vsr env.arch I.order (w.rb + 32))))
        c.state c.memory) := by
  unfold shiftAll
  simp only [bind_assoc, pure_bind]
  refine .noted fun c₁ _ hstate₁ hmemory₁ => ?_
  refine .give (exec_getVr hlayout w.rb_lt) (.give (exec_getVr hlayout w.ra_lt) ?_)
  have ha := Point.knows_vsr_of (I := I) env hstate₁ (w.ra + 32)
  have hb := Point.knows_vsr_of (I := I) env hstate₁ (w.rb + 32)
  obtain ⟨hbits, hlt⟩ := Insn.shiftAmount_lt octets (c.state.vsr env.arch I.order (w.rb + 32))
  rw [← shiftLeft_eq_window (Insn.shiftUnit_dvd octets) (Nat.le_of_lt hlt)]
  exact .fillVr hlayout (Since.next_eq hnext) hstate₁ hmemory₁
    ((ha.shiftLeft hI (hb.shiftAmount hI octets) hbits).has hstate₁)

theorem VectorInteger.shiftRight_comes (name : String) (octets : Bool) :
    Comes env I c (shiftAll w name .shrAll (if octets then 0x78 else 0x7) >>= Lift.putVr w.rd) False
      (Filled env I (w.rd + 32) (window (Insn.shiftUnit octets) 0
        (c.state.vsr env.arch I.order (w.ra + 32)) (128 / Insn.shiftUnit octets -
          Insn.shiftAmount octets (c.state.vsr env.arch I.order (w.rb + 32))))
        c.state c.memory) := by
  unfold shiftAll
  simp only [bind_assoc, pure_bind]
  refine .noted fun c₁ _ hstate₁ hmemory₁ => ?_
  refine .give (exec_getVr hlayout w.rb_lt) (.give (exec_getVr hlayout w.ra_lt) ?_)
  have ha := Point.knows_vsr_of (I := I) env hstate₁ (w.ra + 32)
  have hb := Point.knows_vsr_of (I := I) env hstate₁ (w.rb + 32)
  obtain ⟨hbits, hlt⟩ := Insn.shiftAmount_lt octets (c.state.vsr env.arch I.order (w.rb + 32))
  rw [← shiftRight_eq_window (Insn.shiftUnit_dvd octets) (Nat.le_of_lt hlt)]
  exact .fillVr hlayout (Since.next_eq hnext) hstate₁ hmemory₁
    ((ha.shiftRight hI (hb.shiftAmount hI octets) hbits).has hstate₁)

theorem VectorInteger.oddProduct_comes (name : String) (s : Sign) (width : Narrow) :
    Comes env I c (product w name s width true) False (Filled env I (w.rd + 32)
      (oddProducts s width (c.state.vsr env.arch I.order (w.ra + 32))
        (c.state.vsr env.arch I.order (w.rb + 32))) c.state c.memory) := by
  have hlt : width.bits < 128 := by cases width <;> decide
  unfold product
  refine .noted fun c₁ _ hstate₁ hmemory₁ => ?_
  refine .give (exec_getVr hlayout w.ra_lt) (.give (exec_getVr hlayout w.rb_lt) ?_)
  have ha := Point.knows_vsr_of (I := I) env hstate₁ (w.ra + 32)
  have hb := Point.knows_vsr_of (I := I) env hstate₁ (w.rb + 32)
  have hproducts := (ha.shiftLeft hI (.const (.u8 _)) hlt).two hI (.mulEven s width) rfl
    (hb.shiftLeft hI (.const (.u8 _)) hlt)
  rw [← evenProducts_shiftLeft]
  exact .fillVr hlayout (Since.next_eq hnext) hstate₁ hmemory₁ (hproducts.has hstate₁)

theorem VectorInteger.unpack_comes (name : String) (width : Narrow) (high : Bool) :
    Comes env I c (unpack w name width high >>= Lift.putVr w.rd) (w.ra ≠ 0)
      (Filled env I (w.rd + 32)
        (unpacked width high (c.state.vsr env.arch I.order (w.rb + 32))) c.state c.memory) := by
  unfold unpack
  simp only [bind_assoc, pure_bind]
  refine (Comes.guard (Lift.reservedZero_refuses w _ _) fun _ => .noted fun c₁ _ hstate₁ hmemory₁ =>
    ?_).congr (or_iff_left id)
  refine .bindVr hlayout w.rb_lt fun t c₂ _ hstate₂ hmemory₂ ht => ?_
  have : Since c c₂ := Since.trans c₁
  have hbeside := (ht (S := fun _ => True)).two hI
    (if high then .interleaveHigh width.width else .interleaveLow width.width)
    (f := interleaved width.bits high) (by cases high <;> rfl) ht
  have hvalue := (hbeside.two hI (.sar width.double) rfl
    (Point.knows_splat hI width.double (.ofNat 64 width.bits))).congr
    (congrArg (Value.mk .v128) sshiftRight_interleaved)
  rw [hstate₁] at hvalue
  exact .fillVr hlayout (Since.next_eq hnext) (hstate₂.trans hstate₁) (hmemory₂.trans hmemory₁)
    hvalue.always

theorem VectorInteger.packPixels_comes :
    Comes env I c (Lift.listed s!"vpkpx v{w.rd},v{w.ra},v{w.rb}" >>= fun _ =>
        Lift.getVr w.ra >>= fun a => Lift.getVr w.rb >>= fun b =>
          packPixels a b >>= Lift.putVr w.rd)
      False (Filled env I (w.rd + 32) (packedPixels (c.state.vsr env.arch I.order (w.ra + 32))
        (c.state.vsr env.arch I.order (w.rb + 32))) c.state c.memory) := by
  refine .noted fun c₁ _ hstate₁ hmemory₁ => ?_
  refine .give (exec_getVr hlayout w.ra_lt) (.give (exec_getVr hlayout w.rb_lt) ?_)
  have ha := Point.knows_vsr_of (I := I) env hstate₁ (w.ra + 32)
  refine .packPixels hI (ha.has hstate₁) (fun c' _ hstate =>
    (Point.knows_vsr_of env (hstate.trans hstate₁) (w.rb + 32)).has (hstate.trans hstate₁))
    fun e c₂ _ hstate₂ hmemory₂ he => ?_
  have : Since c c₂ := Since.trans c₁
  exact .fillVr hlayout (Since.next_eq hnext) (hstate₂.trans hstate₁) (hmemory₂.trans hmemory₁)
    he.always

theorem VectorInteger.unpackPixels_comes (letter : String) (high : Bool) :
    Comes env I c (unpackPixelForm w letter high >>= Lift.putVr w.rd) (w.ra ≠ 0)
      (Filled env I (w.rd + 32)
        (unpackedPixels high (c.state.vsr env.arch I.order (w.rb + 32))) c.state c.memory) := by
  unfold unpackPixelForm
  simp only [bind_assoc]
  refine (Comes.guard (Lift.reservedZero_refuses w _ _) fun _ => .noted fun c₁ _ hstate₁ hmemory₁ =>
    ?_).congr (or_iff_left id)
  refine .give (exec_getVr hlayout w.rb_lt) ?_
  have hb := Point.knows_vsr_of (I := I) env hstate₁ (w.rb + 32)
  refine .unpackPixels hI (hb.has hstate₁) fun e c₂ _ hstate₂ hmemory₂ he => ?_
  have : Since c c₂ := Since.trans c₁
  exact .fillVr hlayout (Since.next_eq hnext) (hstate₂.trans hstate₁) (hmemory₂.trans hmemory₁)
    he.always

end

end PowerLift
