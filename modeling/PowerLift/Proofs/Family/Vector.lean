import PowerLift.Family.Cipher
import PowerLift.Family.VectorFloat
import PowerLift.Proofs.Flags

/-!
# Vector instructions

Integer and floating-point lanes, permutes, pixels, ciphers and packed decimals.
-/

namespace PowerLift

open Lift
open Stage (Next Before)

variable {P : Placement} {s : Stage} {pending : List Nat} {w : Insn}

namespace VectorInteger

variable {a a' b b' c c' e e' : Expr}

theorem splat_paired {v : Width} {x : BitVec 64} : Paired P s (splat v x) (splat v x) .v128 := .v128

theorem element_paired {v : Width} {i : Nat} (he : Paired P s e e' .v128) :
    Paired P s (element v e i) (element v e' i) .i32 := by
  refine .un rfl ?_
  split
  · exact he
  · exact .bin rfl he .u8

theorem permuteBytes_paired (ha : Paired P s a a' .v128) (hb : Paired P s b b' .v128) :
    Paired P s (permuteBytes a b) (permuteBytes a' b') .v128 :=
  .bin rfl ha (.bin rfl hb splat_paired)

theorem saturateIf_emits (he : Paired P s e e' .i1) :
    Emits P s pending (saturateIf e) (saturateIf e') := by
  unfold saturateIf
  refine .give getSpecial_gives ?_
  exact putVscr_emits (.bin rfl (get_paired (by decide) rfl) (.bin rfl (.un rfl he) .u32))
    fun _ => .or .self

theorem anySet_computes (he : Paired P s e e' .v128) :
    Computes P s pending (anySet e) (anySet e') .i1 :=
  .bind (splitHalves_kept he) fun ⟨_, _⟩ ⟨_, _⟩ _ _ ⟨hhi, hlo⟩ =>
    .done (.bin rfl (.bin rfl hhi hlo) .u64)

/-! ## Loads and stores -/

theorem alignedAddress_reads {align : BitVec 64} (ha : Paired P s a a' P.gprTy) :
    Reads P s pending (alignedAddress a align) (alignedAddress a' align) P.gprTy :=
  .give wordOp_gives (.give imm_gives (.pure (.bin rfl ha .imm)))

theorem shiftControl_emits {left : Bool} (ha : Paired P s a a' P.gprTy) :
    Emits P s pending (shiftControl w a left) (shiftControl w a' left) := by
  unfold shiftControl
  refine .give listed_gives (.give wordOp_gives (.give imm_gives ?_))
  refine .read (narrow_reads (.bin rfl ha .imm) .i8) fun _ _ hoffset => putVr_emits w.rd_lt ?_
  cases left <;> exact .bin rfl .v128 (.un rfl hoffset)

theorem load_emits {name : String} (ha : Paired P s a a' P.gprTy) :
    Emits P s pending (load w name a) (load w name a') := by
  unfold load
  refine .give listed_gives (.read (alignedAddress_reads ha) fun _ _ ha => ?_)
  exact .read (load_reads ha) fun _ _ h => putVr_emits w.rd_lt h

theorem store_emits {name : String} (ha : Paired P s a a' P.gprTy) :
    Emits P s pending (store w name a) (store w name a') := by
  unfold store
  refine .give listed_gives (.read (alignedAddress_reads ha) fun _ _ ha => ?_)
  exact .read (getVr_reads w.rd_lt) fun _ _ h => store_lift_emits ha h (by decide)

theorem storeElement_emits {name : String} {v : Narrow} (ha : Paired P s a a' P.gprTy) :
    Emits P s pending (storeElement w name v a) (storeElement w name v a') := by
  unfold storeElement
  refine .give listed_gives (.give wordOp_gives (.give imm_gives ?_))
  refine .read (narrow_reads (.bin rfl ha .imm) .i8) fun _ _ hoffset => ?_
  refine .read (getVr_reads w.rd_lt) fun _ _ h => .read (alignedAddress_reads ha) fun _ _ ha => ?_
  cases v with
  | w8 =>
      refine store_lift_emits ha (.un rfl (.un rfl (.bin rfl h ?_))) (by decide)
      exact .bin rfl (.bin rfl .u8 hoffset) .u8
  | w16 =>
      refine store_lift_emits ha (.un rfl (.un rfl (.bin rfl h ?_))) (by decide)
      exact .bin rfl (.bin rfl .u8 hoffset) .u8
  | w32 =>
      refine store_lift_emits ha (.un rfl (.bin rfl h ?_)) (by decide)
      exact .bin rfl (.bin rfl .u8 hoffset) .u8

theorem memory_emits : Emits P s pending (memory w) (memory w) := by
  unfold memory
  refine .guard reservedClear_guards fun _ => ?_
  refine hold_runs (eaOr0Idx_reads w.ra_lt w.rb_lt) fun _ _ _ _ ha => ?_
  split
  case h_1 | h_2 => exact (shiftControl_emits ha).last
  case h_3 | h_4 | h_5 | h_6 | h_7 => exact (load_emits ha).last
  case h_8 | h_9 => exact (store_emits ha).last
  case h_10 | h_11 | h_12 => exact (storeElement_emits ha).last
  case h_13 => exact refuse_runs

/-! ## Selection, permutation and comparison -/

theorem threeOperands_emits : Emits P s pending (threeOperands w) (threeOperands w) := by
  unfold threeOperands
  refine .read (getVr_reads w.ra_lt) fun _ _ ha => .read (getVr_reads w.rb_lt) fun _ _ hb => ?_
  have hblend : ∀ {s₁ : Stage} {a a' b b' c c' : Expr}, Paired P s₁ a a' .v128 →
      Paired P s₁ b b' .v128 → Paired P s₁ c c' .v128 →
      Paired P s₁
        (.bin (.vector .or) (.bin (.vector .and) a (.un (.vector .not) c))
          (.bin (.vector .and) b c))
        (.bin (.vector .or) (.bin (.vector .and) a' (.un (.vector .not) c'))
          (.bin (.vector .and) b' c')) .v128 :=
    fun ha hb hc => .bin rfl (.bin rfl ha (.un rfl hc)) (.bin rfl hb hc)
  dsimp only
  split
  case h_1 =>
    refine .give listed_gives ?_
    refine hold_runs (getVr_reads w.rcField_lt) fun _ _ _ _ hc => .ret ?_
    exact (putVr_emits w.rd_lt (hblend ha.up hb.up hc)).last
  case h_2 =>
    refine .give listed_gives ?_
    refine hold_runs (getVr_reads w.rcField_lt) fun _ _ _ _ hc => ?_
    refine .bind (bind_computes (.bin rfl (.bin rfl hc splat_paired) splat_paired))
      fun _ _ _ _ hmask => .ret ?_
    exact (putVr_emits w.rd_lt (hblend (permuteBytes_paired ha.up hc.up)
      (permuteBytes_paired hb.up hc.up) hmask)).last
  case h_3 =>
    refine .guard reservedZero_guards fun _ => .give listed_gives (.ite (fun _ => ?_) fun _ => ?_)
    · exact .ret (putVr_emits w.rd_lt ha)
    · exact .ret (putVr_emits w.rd_lt (.bin rfl (.bin rfl ha .u8) (.bin rfl hb .u8)))

theorem comparison?_signature {n : Nat} {name : String} {op : VectorOp}
    (h : comparison? n = some (name, op)) : op.signature = .same .v128 := by
  unfold comparison? at h
  split at h <;> cases h <;> rfl

theorem compare_emits {name : String} {op : VectorOp} (hop : op.signature = .same .v128) :
    Emits P s pending (compare w name op) (compare w name op) := by
  unfold compare
  refine .give listed_gives ?_
  refine .read (getVr_reads w.ra_lt) fun _ _ ha => .read (getVr_reads w.rb_lt) fun _ _ hb => ?_
  refine .bind (bind_computes (.bin hop ha hb)) fun _ _ _ _ hres => ?_
  refine .seq (putVr_emits w.rd_lt hres) fun _ _ => ?_
  exact .ite (fun _ => (recordLanes_emits hres.up).last) fun _ => .done trivial

/-! ## Lane arithmetic -/

theorem laneOperation?_signature {n : Nat} {name : String} {op : VectorOp}
    {modular : Option VectorOp} (h : laneOperation? n = some (name, op, modular)) :
    op.signature = .same .v128 ∧ ∀ m ∈ modular, m.signature = .same .v128 := by
  unfold laneOperation? at h
  split at h <;> cases h <;> exact ⟨rfl, fun _ hm => by cases hm <;> rfl⟩

theorem laneOperation_emits {name : String} {op : VectorOp} {modular : Option VectorOp}
    (hop : op.signature = .same .v128) (hmodular : ∀ m ∈ modular, m.signature = .same .v128) :
    Emits P s pending (laneOperation w name op modular) (laneOperation w name op modular) := by
  unfold laneOperation
  refine .give listed_gives ?_
  refine hold_runs (getVr_reads w.ra_lt) fun _ _ _ _ ha => ?_
  refine hold_runs (getVr_reads w.rb_lt) fun _ _ _ _ hb => ?_
  refine .bind (bind_computes (.bin hop ha.up hb)) fun _ _ _ _ hres => ?_
  refine .seq (putVr_emits w.rd_lt hres) fun _ _ => ?_
  -- Saturation shows where the result is not the one that wraps around.
  cases modular with
  | none => exact .done trivial
  | some m =>
      refine .bind (anySet_computes (.bin rfl hres.up (.bin (hmodular m rfl) ha.up hb.up)))
        fun _ _ _ _ hflag => ?_
      exact (saturateIf_emits hflag).last

theorem outOfRange_paired {x : Saturation} {v : Narrow} (he : Paired P s e e' .v128) :
    Paired P s (outOfRange x v e) (outOfRange x v e') .v128 := by
  cases x with
  | unsigned => exact .bin rfl he splat_paired
  | signedToUnsigned | signed =>
      exact .bin rfl (.bin rfl he splat_paired) (.bin rfl splat_paired he)

theorem pack_emits {name : String} {x : Saturation} {v : Narrow} :
    Emits P s pending (pack w name x v) (pack w name x v) := by
  unfold pack
  refine .give listed_gives ?_
  refine hold_runs (getVr_reads w.ra_lt) fun _ _ _ _ ha => ?_
  refine hold_runs (getVr_reads w.rb_lt) fun _ _ _ _ hb => ?_
  refine .seq (putVr_emits w.rd_lt (.bin rfl ha.up hb)) fun _ _ => ?_
  refine .bind (anySet_computes (.bin rfl (outOfRange_paired ha.up) (outOfRange_paired hb.up)))
    fun _ _ _ _ hflag => ?_
  exact (saturateIf_emits hflag).last

theorem product_emits {name : String} {sign : Sign} {v : Narrow} {odd : Bool} :
    Emits P s pending (product w name sign v odd) (product w name sign v odd) := by
  unfold product
  refine .give listed_gives ?_
  refine .read (getVr_reads w.ra_lt) fun _ _ ha => .read (getVr_reads w.rb_lt) fun _ _ hb => ?_
  refine putVr_emits w.rd_lt ?_
  cases odd
  · exact .bin rfl ha hb
  · exact .bin rfl (.bin rfl ha .u8) (.bin rfl hb .u8)

/-! ## Pixels -/

theorem expandPixel_computes (he : Paired P s e e' .i32) :
    Computes P s pending (expandPixel e) (expandPixel e') .i32 := by
  unfold expandPixel
  refine .bind (bind_computes he) fun _ _ s₁ _ h => ?_
  refine .done (.bin rfl (.bin rfl ?_ ?_) (.bin rfl ?_ ?_))
  · exact .bin rfl (.bin rfl (.bin rfl (.bin rfl h .u8) .u8) .u32) .u8
  · exact .bin rfl (.bin rfl (.bin rfl h .u8) .u32) .u8
  · exact .bin rfl (.bin rfl (.bin rfl h .u8) .u32) .u8
  · exact .bin rfl h .u32

theorem expandPair_kept (he : Paired P s e e' .i32) :
    Runs P s pending (expandPair e) (expandPair e') (Kept P s pending fun r r' s₁ =>
      Paired P s₁ r.1 r'.1 .i32 ∧ Paired P s₁ r.2 r'.2 .i32) := by
  unfold expandPair
  refine .bind (expandPixel_computes (.bin rfl he .u8)) fun _ _ _ _ hfirst => ?_
  refine .bind (expandPixel_computes (.bin rfl he.up .u32)) fun _ _ _ _ hsecond => ?_
  exact .done ⟨hfirst.up, hsecond⟩

theorem unpackPixels_computes {high : Bool} (he : Paired P s e e' .v128) :
    Computes P s pending (unpackPixels e high) (unpackPixels e' high) .v128 := by
  unfold unpackPixels
  have hop : (Op.cast (if high then .highVto64 else .lowVto64)).signature = .unary .i64 .v128 := by
    split <;> rfl
  refine .bind (bind_computes (.un hop he)) fun _ _ _ _ hd => ?_
  refine .bind (bind_computes (.un rfl hd)) fun _ _ _ _ hhi => ?_
  refine .bind (bind_computes (.un rfl hd.up)) fun _ _ _ _ hlo => ?_
  refine .bind (expandPair_kept hhi.up) fun ⟨_, _⟩ ⟨_, _⟩ _ _ ⟨ha, hb⟩ => ?_
  refine .bind (expandPair_kept hlo.up) fun ⟨_, _⟩ ⟨_, _⟩ _ _ ⟨hc, hd⟩ => ?_
  exact .done (.ofWords ha.up hb.up hc hd)

theorem shrinkPixel_paired (he : Paired P s e e' .i32) :
    Paired P s (shrinkPixel e) (shrinkPixel e') .i32 :=
  .bin rfl (.bin rfl (.bin rfl he .u8) .u32)
    (.bin rfl (.bin rfl (.bin rfl he .u8) .u32) (.bin rfl (.bin rfl he .u8) .u32))

theorem shrinkPairs_paired {n : Nat} {es es' : List Expr}
    (hes : PairedList P s es es' (List.replicate (2 * n) .i32)) :
    PairedList P s (shrinkPairs es) (shrinkPairs es') (List.replicate n .i32) := by
  -- The source is taken two words at a time.
  induction n generalizing es es' with
  | zero =>
      obtain ⟨rfl, rfl⟩ := hes.eq_nil
      exact .nil
  | succ n ih =>
      rw [Nat.mul_succ, List.replicate_succ, List.replicate_succ] at hes
      obtain ⟨a, a', fs, fs', rfl, rfl, ha, hfs⟩ := hes.exists_cons
      obtain ⟨b, b', gs, gs', rfl, rfl, hb, hgs⟩ := hfs.exists_cons
      exact .cons (.bin rfl (.bin rfl (shrinkPixel_paired ha) .u8) (shrinkPixel_paired hb)) (ih hgs)

theorem packPixels_computes (ha : Paired P s a a' .v128) (hb : Paired P s b b' .v128) :
    Computes P s pending (packPixels a b) (packPixels a' b') .v128 := by
  unfold packPixels
  refine .bind (splitWords_kept ha) fun _ _ _ _ hwords => ?_
  refine .bind (splitWords_kept hb.up) fun _ _ s₁ _ hmore => ?_
  have hwords : PairedList P s₁ _ _ (List.replicate 4 .i32) := hwords.up
  have hpixels := shrinkPairs_paired (n := 4) (hwords.append hmore)
  obtain ⟨p, p', ps, ps', hps, hps', hp, hpixels⟩ := hpixels.exists_cons
  obtain ⟨q, q', qs, qs', rfl, rfl, hq, hpixels⟩ := hpixels.exists_cons
  obtain ⟨r, r', rs, rs', rfl, rfl, hr, hpixels⟩ := hpixels.exists_cons
  obtain ⟨t, t', ts, ts', rfl, rfl, ht, hpixels⟩ := hpixels.exists_cons
  obtain ⟨rfl, rfl⟩ := hpixels.eq_nil
  rw [hps, hps']
  exact .done (.ofWords hp hq hr ht)

/-! ## Forms with an eleven-bit extended opcode -/

theorem bitwise?_paired (xo : Nat) (ha : Paired P s a a' .v128) (hb : Paired P s b b' .v128) :
    (bitwise? xo a b = none ∧ bitwise? xo a' b' = none) ∨
    ∃ name e e', bitwise? xo a b = some (name, e) ∧ bitwise? xo a' b' = some (name, e') ∧
      Paired P s e e' .v128 := by
  unfold bitwise?
  split
  case h_1 | h_3 | h_4 => exact .inr ⟨_, _, _, rfl, rfl, .bin rfl ha hb⟩
  case h_2 | h_6 => exact .inr ⟨_, _, _, rfl, rfl, .bin rfl ha (.un rfl hb)⟩
  case h_5 | h_7 | h_8 => exact .inr ⟨_, _, _, rfl, rfl, .un rfl (.bin rfl ha hb)⟩
  case h_9 => exact .inl ⟨rfl, rfl⟩

theorem splatElement_reads {name : String} {v : Narrow} :
    Reads P s pending (splatElement w name v) (splatElement w name v) .v128 := by
  unfold splatElement
  refine .guard reservedZero_guards fun _ => .give listed_gives ?_
  refine .read (getVr_reads w.rb_lt) fun _ _ h => ?_
  cases v with
  | w8 | w16 => exact .pure (.un rfl (.un rfl (element_paired h)))
  | w32 => exact .pure (.un rfl (element_paired h))

theorem splatImmediate_reads {name : String} {v : Narrow} :
    Reads P s pending (splatImmediate w name v) (splatImmediate w name v) .v128 := by
  unfold splatImmediate
  refine .guard reservedZero_guards fun _ => .give listed_gives ?_
  cases v with
  | w8 => exact .pure (.un rfl .u8)
  | w16 => exact .pure (.un rfl .u16)
  | w32 => exact .pure (.un rfl .u32)

theorem unpack_computes {name : String} {v : Narrow} {high : Bool} :
    Computes P s pending (unpack w name v high) (unpack w name v high) .v128 := by
  unfold unpack
  refine .guard reservedZero_guards fun _ => .give listed_gives ?_
  refine hold_runs (getVr_reads w.rb_lt) fun _ _ _ _ hb => ?_
  cases high <;> exact .done (.bin rfl (.bin rfl hb hb) splat_paired)

theorem shiftAll_reads {name : String} {op : VectorOp} {mask : BitVec 32}
    (hop : op.signature = .binary .v128 .v128 .i8) :
    Reads P s pending (shiftAll w name op mask) (shiftAll w name op mask) .v128 := by
  unfold shiftAll
  refine .give listed_gives (.read (getVr_reads w.rb_lt) fun _ _ hb => ?_)
  refine .read (getVr_reads w.ra_lt) fun _ _ ha => .pure (.bin hop ha ?_)
  exact .un rfl (.bin rfl (.un rfl hb) .u32)

theorem countLanes_reads {name : String} {op : VectorOp} (hop : op.signature = .unary .v128 .v128) :
    Reads P s pending (countLanes w name op) (countLanes w name op) .v128 := by
  unfold countLanes
  refine .guard reservedZero_guards fun _ => .give listed_gives ?_
  exact .read (getVr_reads w.rb_lt) fun _ _ h => .pure (.un hop h)

theorem unpackPixelForm_computes {letter : String} {high : Bool} :
    Computes P s pending (unpackPixelForm w letter high) (unpackPixelForm w letter high) .v128 := by
  unfold unpackPixelForm
  refine .guard reservedZero_guards fun _ => .give listed_gives ?_
  exact .read (getVr_reads w.rb_lt) fun _ _ h => unpackPixels_computes h

theorem otherForm_computes : Computes P s pending (otherForm w) (otherForm w) .v128 := by
  unfold otherForm
  dsimp only
  split
  case h_1 | h_2 | h_3 | h_4 | h_5 | h_6 | h_7 | h_8 =>
    refine .read (getVr_reads w.ra_lt) fun _ _ ha => .read (getVr_reads w.rb_lt) fun _ _ hb => ?_
    obtain ⟨hnone, hnone'⟩ | ⟨name, e, e', hsome, hsome', he⟩ := bitwise?_paired w.vxXo ha hb
    · rw [hnone, hnone']
      exact refuse_runs
    · rw [hsome, hsome']
      exact .give listed_gives (.done he)
  case h_9 | h_10 | h_11 | h_12 => exact (shiftAll_reads rfl).computes
  case h_13 | h_14 | h_15 => exact splatElement_reads.computes
  case h_16 | h_17 | h_18 => exact splatImmediate_reads.computes
  case h_19 | h_20 | h_21 | h_22 | h_23 | h_24 => exact unpack_computes
  case h_25 | h_26 => exact unpackPixelForm_computes
  case h_27 =>
    refine .give listed_gives (.read (getVr_reads w.ra_lt) fun _ _ ha => ?_)
    exact .read (getVr_reads w.rb_lt) fun _ _ hb => packPixels_computes ha hb
  case h_28 | h_29 | h_30 | h_31 | h_32 | h_33 | h_34 | h_35 =>
    exact (countLanes_reads rfl).computes
  case h_36 => exact refuse_runs

theorem twoOperands_emits : Emits P s pending (twoOperands w) (twoOperands w) := by
  unfold twoOperands
  split
  next name op modular hlane =>
    obtain ⟨hop, hmodular⟩ := laneOperation?_signature hlane
    exact laneOperation_emits hop hmodular
  next =>
    split
    · exact pack_emits
    · split
      · exact product_emits
      · exact .bind otherForm_computes fun _ _ _ _ h => (putVr_emits w.rd_lt h).last

theorem lift_ends : Ends P s (lift w) (lift w) := by
  unfold lift
  split
  · exact Emits.ends memory_emits
  · refine .ite (fun _ => Emits.ends threeOperands_emits) fun _ => ?_
    split
    next name op hop => exact Emits.ends (compare_emits (comparison?_signature hop))
    next => exact Emits.ends twoOperands_emits
  · exact refuse_runs

end VectorInteger

namespace VectorFloat

open VectorInteger (splat_paired saturateIf_emits anySet_computes)

variable {a a' b b' : Expr}

theorem nearest_paired : Paired P s nearest nearest .i32 := .u32

theorem multiplyAdd_emits : Emits P s pending (multiplyAdd w) (multiplyAdd w) := by
  unfold multiplyAdd
  refine .read (getVr_reads w.ra_lt) fun _ _ ha => ?_
  refine .read (getVr_reads w.rcField_lt) fun _ _ hc => .ite (fun _ => ?_) fun _ => ?_
  · refine .give listed_gives (.read (getVr_reads w.rb_lt) fun _ _ hb => ?_)
    exact putVr_emits w.rd_lt (.tri rfl nearest_paired (.tri rfl nearest_paired ha hc) hb)
  · refine .give listed_gives (.read (getVr_reads w.rb_lt) fun _ _ hb => ?_)
    exact putVr_emits w.rd_lt (.tri rfl nearest_paired hb (.tri rfl nearest_paired ha hc))

theorem outOfBounds_paired (ha : Paired P s a a' .v128) (hb : Paired P s b b' .v128) :
    Paired P s (outOfBounds a b) (outOfBounds a' b') .v128 :=
  .bin rfl (.bin rfl (.un rfl (.bin rfl hb ha)) splat_paired)
    (.bin rfl (.un rfl (.bin rfl ha (.un rfl hb))) splat_paired)

theorem compare_emits : Emits P s pending (compare w) (compare w) := by
  unfold compare
  refine hold_runs (getVr_reads w.ra_lt) fun _ _ _ _ ha => ?_
  refine hold_runs (getVr_reads w.rb_lt) fun _ _ s₁ _ hb => ?_
  have hfinish : ∀ {line line' : String} {testAll : Bool} {e e' : Expr}, Paired P s₁ e e' .v128 →
      Runs P s₁ pending
        (do listed line; let res ← bind e; putVr w.rd res
            if w.vcRecord then recordLanes res testAll)
        (do listed line'; let res ← bind e'; putVr w.rd res
            if w.vcRecord then recordLanes res testAll)
        (Kept P s pending fun _ _ _ => True) := by
    intro line line' testAll e e' he
    refine .give listed_gives (.bind (bind_computes he) fun _ _ _ _ hres => ?_)
    refine .seq (putVr_emits w.rd_lt hres) fun _ _ => ?_
    exact .ite (fun _ => (recordLanes_emits hres.up).last) fun _ => .done trivial
  have ha : Paired P s₁ _ _ .v128 := ha.up
  dsimp only
  split
  case h_1 | h_2 | h_3 => exact hfinish (.bin rfl ha hb)
  case h_4 => exact hfinish (outOfBounds_paired ha hb)

theorem unary_emits {name : String} {op : VectorFloatOp} (hop : op.signature = .unary .v128 .v128) :
    Emits P s pending (unary w name op) (unary w name op) := by
  unfold unary
  refine .guard reservedZero_guards fun _ => .give listed_gives ?_
  exact .read (getVr_reads w.rb_lt) fun _ _ h => putVr_emits w.rd_lt (.un hop h)

theorem ofInteger_emits {letter : String} {op : VectorFloatOp}
    (hop : op.signature = .unary .v128 .v128) :
    Emits P s pending (ofInteger w letter op) (ofInteger w letter op) := by
  unfold ofInteger
  refine .give listed_gives (.read (getVr_reads w.rb_lt) fun _ _ h => ?_)
  exact putVr_emits w.rd_lt (.tri rfl nearest_paired (.un hop h) splat_paired)

theorem toInteger_emits {signed : Bool} :
    Emits P s pending (toInteger w signed) (toInteger w signed) := by
  unfold toInteger
  refine .give listed_gives (.read (getVr_reads w.rb_lt) fun _ _ h => ?_)
  refine .bind (bind_computes (.tri rfl nearest_paired h splat_paired)) fun _ _ _ _ hscaled => ?_
  cases signed
  · refine .bind (anySet_computes (.bin rfl (.bin rfl hscaled splat_paired)
      (.bin rfl splat_paired hscaled))) fun _ _ _ _ hflag => ?_
    exact .seq (saturateIf_emits hflag) fun _ _ => (putVr_emits w.rd_lt (.un rfl hscaled.up)).last
  · refine .bind (anySet_computes (.bin rfl (.bin rfl hscaled splat_paired)
      (.bin rfl splat_paired hscaled))) fun _ _ _ _ hflag => ?_
    exact .seq (saturateIf_emits hflag) fun _ _ => (putVr_emits w.rd_lt (.un rfl hscaled.up)).last

theorem twoOperands_emits : Emits P s pending (twoOperands w) (twoOperands w) := by
  unfold twoOperands
  dsimp only
  split
  case h_1 | h_2 =>
    refine .give listed_gives (.read (getVr_reads w.ra_lt) fun _ _ ha => ?_)
    refine .read (getVr_reads w.rb_lt) fun _ _ hb => putVr_emits w.rd_lt ?_
    exact .tri rfl nearest_paired ha hb
  case h_3 | h_4 =>
    refine .give listed_gives (.read (getVr_reads w.ra_lt) fun _ _ ha => ?_)
    exact .read (getVr_reads w.rb_lt) fun _ _ hb => putVr_emits w.rd_lt (.bin rfl ha hb)
  case h_5 | h_6 | h_7 | h_8 | h_9 | h_10 | h_11 | h_12 => exact unary_emits rfl
  case h_13 | h_14 => exact ofInteger_emits rfl
  case h_15 | h_16 => exact toInteger_emits
  case h_17 => exact refuse_runs

theorem lift_ends : Ends P s (lift w) (lift w) := by
  unfold lift
  refine .ite (fun _ => Emits.ends multiplyAdd_emits) fun _ => ?_
  exact .ite (fun _ => Emits.ends compare_emits) fun _ => Emits.ends twoOperands_emits

end VectorFloat

namespace Cipher

open VectorInteger (splat_paired permuteBytes_paired)

theorem permuteXor_emits : Emits P s pending (permuteXor w) (permuteXor w) := by
  unfold permuteXor
  refine .give listed_gives ?_
  refine hold_runs (getVr_reads w.rcField_lt) fun _ _ _ _ hc => ?_
  refine .read (getVr_reads w.ra_lt) fun _ _ ha => ?_
  refine .read (getVr_reads w.rb_lt) fun _ _ hb => (putVr_emits w.rd_lt (.bin rfl ?_ ?_)).last
  · exact permuteBytes_paired ha (.bin rfl hc splat_paired)
  · exact permuteBytes_paired hb (.bin rfl hc splat_paired)

theorem packed_emits : Emits P s pending (packed w) (packed w) := by
  unfold packed
  have hop : (Op.crypto (if w.vxXo.testBit 6 then .bcdSub else .bcdAdd)).signature =
      ⟨.v128, [.v128, .v128, .i8]⟩ := by
    split <;> rfl
  refine .give listed_gives (.read (getVr_reads w.ra_lt) fun _ _ ha => ?_)
  refine .read (getVr_reads w.rb_lt) fun _ _ hb => ?_
  refine .bind (bind_computes (.tri hop ha hb .u8)) fun _ _ _ _ hres => ?_
  refine .seq (putVr_emits w.rd_lt hres) fun _ _ => ?_
  refine .bind (splitHalves_kept hres.up) fun ⟨_, _⟩ ⟨_, _⟩ _ _ ⟨hhi, hlo⟩ => ?_
  refine .bind (bind_computes (.bin rfl hlo .u64)) fun _ _ _ _ hsign => ?_
  refine .bind (bind_computes (.bin rfl (.bin rfl hhi.up (.bin rfl hlo.up .u8)) .u64))
    fun _ _ _ _ hzero => ?_
  refine .bind (bind_computes (.bin rfl (.bin rfl (.bin rfl hsign.up .u64) (.bin rfl hsign.up .u64))
    (.un rfl hzero))) fun _ _ s₁ _ hnegative => ?_
  have hzero : Paired P s₁ _ _ .i1 := hzero.up
  refine (putFields_emits (by decide) (.bin rfl (.bin rfl (.un rfl hnegative) .u8)
    (.bin rfl (.bin rfl (.un rfl ?_) .u8) (.bin rfl (.un rfl hzero) .u8))) ?_ .u8 .zero).last
  · exact .bin rfl (.un rfl hnegative) (.un rfl hzero)
  · exact .weaken (.or (bit_bounded 3 (by decide)) (.or (bit_bounded 2 (by decide))
      (bit_bounded 1 (by decide)))) (by decide)

theorem twoOperands_emits : Emits P s pending (twoOperands w) (twoOperands w) := by
  unfold twoOperands
  dsimp only
  split
  case h_1 | h_2 | h_3 | h_4 | h_8 | h_9 | h_10 | h_11 =>
    refine .give listed_gives (.read (getVr_reads w.ra_lt) fun _ _ ha => ?_)
    exact .read (getVr_reads w.rb_lt) fun _ _ hb => putVr_emits w.rd_lt (.bin rfl ha hb)
  case h_5 =>
    refine .guard reservedZero_guards fun _ => .give listed_gives ?_
    exact .read (getVr_reads w.ra_lt) fun _ _ ha => putVr_emits w.rd_lt (.un rfl ha)
  case h_6 | h_7 =>
    refine .give listed_gives (.read (getVr_reads w.ra_lt) fun _ _ ha => ?_)
    exact putVr_emits w.rd_lt (.bin rfl ha .u8)
  case h_12 => exact refuse_runs

theorem lift_ends : Ends P s (lift w) (lift w) := by
  unfold lift
  refine .ite (fun _ => Emits.ends permuteXor_emits) fun _ => ?_
  exact .ite (fun _ => Emits.ends packed_emits) fun _ => Emits.ends twoOperands_emits

end Cipher

end PowerLift
