import PowerLift.Family.VectorScalarMemory
import PowerLift.Proofs.Family.Floating
import PowerLift.Proofs.Family.Vector

/-!
# Vector-scalar instructions

Computation on lanes, and the transfers of vector-scalar registers. Some of the instructions exist
only where an extension is enabled, which the two liftings may differ in.
-/

namespace PowerLift

open Lift
open Stage (Next Before)

variable {P : Placement} {s : Stage} {pending : List Nat} {w : Insn}

/-- A word that needs an extension of the architecture. -/
theorem Lift.isa207_runs {α : Type} {since : Bool} {f f' : Unit → Lift α}
    {K : α → α → Progress → Progress → Prop} (hf : Runs P s pending (f ()) (f' ()) K) :
    Runs P s pending
      (if (since && !P.alone.features.isa207) = true then missing w .isa207 >>= f else f ())
      (if (since && !P.env.features.isa207) = true then missing w .isa207 >>= f' else f' ()) K := by
  cases hleft : since && !P.alone.features.isa207 with
  | false =>
      have hright : (since && !P.env.features.isa207) = false := by
        cases since with
        | false => rfl
        | true =>
            have hisa : P.features.isa207 = true := by simpa using hleft
            simp [P.features_le.isa207 hisa]
      simpa only [hright, Bool.false_eq_true, if_false] using hf
  | true =>
      cases hright : since && !P.env.features.isa207 with
      | true =>
          simp only [if_true]
          exact refuse_bind
      | false =>
          intro _ p p' _
          refine .gated w.raw .isa207 p _ fun heq => ?_
          rw [Placement.alone_features, heq, hright] at hleft
          contradiction

namespace VectorScalar

open VectorInteger (splat_paired element_paired)

variable {a a' b b' c c' e e' : Expr}

/-! ## Lanes -/

theorem halves_paired (ha : Paired P s a a' .i64) (hb : Paired P s b b' .i64) :
    Paired P s (halves a b) (halves a' b') .v128 :=
  .bin rfl ha hb

theorem highHalf_paired (ha : Paired P s a a' .i64) :
    Paired P s (highHalf a) (highHalf a') .v128 :=
  halves_paired ha .u64

theorem highWord_paired (ha : Paired P s a a' .i32) :
    Paired P s (highWord a) (highWord a') .i64 :=
  .bin rfl ha .u32

theorem highDouble_paired (ha : Paired P s a a' .v128) :
    Paired P s (highDouble a) (highDouble a') .f64 :=
  .un rfl (.un rfl ha)

theorem doubleOfSingle_paired (ha : Paired P s a a' .i32) :
    Paired P s (doubleOfSingle a) (doubleOfSingle a') .f64 :=
  .un rfl (.un rfl ha)

theorem singleOfDouble_paired (ha : Paired P s a a' .i32) (hb : Paired P s b b' .f64) :
    Paired P s (singleOfDouble a b) (singleOfDouble a' b') .i32 :=
  .un rfl (.bin rfl ha hb)

/-- The number of lanes. -/
def Lanes.count : Lanes → Nat
  | scalarDouble | scalarSingle => 1
  | doubles => 2
  | singles => 4

theorem readLanes_kept {r : Nat} {l : Lanes} (hr : r < 64) :
    Runs P s pending (readLanes r l) (readLanes r l) (Kept P s pending fun es es' s₁ =>
      PairedList P s₁ es es' (List.replicate l.count .f64)) := by
  unfold readLanes
  refine .read (getVsr_reads hr) fun _ _ hv => ?_
  cases l with
  | scalarDouble | scalarSingle =>
      exact .bind (bind_computes (highDouble_paired hv)) fun _ _ _ _ h => .done (.cons h .nil)
  | doubles =>
      refine .bind (splitHalves_kept hv) fun ⟨_, _⟩ ⟨_, _⟩ _ _ ⟨hhi, hlo⟩ => ?_
      exact (mapM_kept (n := 2) (.cons hhi (.cons hlo .nil)) fun _ _ _ _ h =>
        bind_computes (.un rfl h)).last
  | singles =>
      refine .bind (splitWords_kept hv) fun _ _ _ _ hwords => ?_
      exact (mapM_kept hwords fun _ _ _ _ h => bind_computes (doubleOfSingle_paired h)).last

theorem lane_paired {n i : Nat} {es es' : List Expr} {τ : Ty} (hi : i < n)
    (hes : PairedList P s es es' (List.replicate n τ)) :
    Paired P s (lane es i) (lane es' i) τ := by
  induction n generalizing es es' i with
  | zero => exact absurd hi (Nat.not_lt_zero i)
  | succ n ih =>
      obtain ⟨e, e', fs, fs', rfl, rfl, he, hfs⟩ := hes.exists_cons
      cases i with
      | zero => exact he
      | succ i =>
          have hrest := ih (Nat.lt_of_succ_lt_succ hi) hfs
          exact hrest

theorem ofLanes_paired {l : Lanes} {f f' : Nat → Expr}
    (hf : ∀ i < l.count, Paired P s (f i) (f' i) .f64) :
    Paired P s (ofLanes l f) (ofLanes l f') .v128 := by
  cases l with
  | scalarDouble | scalarSingle => exact highHalf_paired (.un rfl (hf 0 (by decide)))
  | doubles => exact halves_paired (.un rfl (hf 0 (by decide))) (.un rfl (hf 1 (by decide)))
  | singles =>
      have hword : ∀ i < 4, Paired P s (singleOfDouble (.u32 Rounding.nearestEven.code) (f i))
          (singleOfDouble (.u32 Rounding.nearestEven.code) (f' i)) .i32 :=
        fun i hi => singleOfDouble_paired .u32 (hf i hi)
      exact .ofWords (hword 0 (by decide)) (hword 1 (by decide)) (hword 2 (by decide))
        (hword 3 (by decide))

theorem signMask_paired {l : Lanes} : Paired P s (signMask l) (signMask l) .v128 := by
  cases l <;> exact splat_paired

theorem keepLanes_paired {l : Lanes} (he : Paired P s e e' .v128) :
    Paired P s (keepLanes l e) (keepLanes l e') .v128 := by
  cases l with
  | scalarDouble | scalarSingle => exact highHalf_paired (.un rfl he)
  | doubles | singles => exact he

/-! ## Operators -/

theorem Arithmetic.op_signature (op : Arithmetic) (single : Bool) :
    (op.op single).signature = ⟨.f64, [.i32, .f64, .f64]⟩ := by
  cases op <;> cases single <;> rfl

theorem Fused.op_signature (f : Fused) (single : Bool) :
    (f.op single).signature = ⟨.f64, [.i32, .f64, .f64, .f64]⟩ := by
  unfold Fused.op
  cases f.subtract <;> cases single <;> rfl

theorem Fused.result_paired (f : Fused) {single : Bool} {rm rm' : Expr}
    (hrm : Paired P s rm rm' .i32) (ha : Paired P s a a' .f64) (hb : Paired P s b b' .f64)
    (hc : Paired P s c c' .f64) :
    Paired P s
      (if f.negate then .un (.float .neg) (.quad (f.op single) rm a b c)
        else .quad (f.op single) rm a b c)
      (if f.negate then .un (.float .neg) (.quad (f.op single) rm' a' b' c')
        else .quad (f.op single) rm' a' b' c') .f64 := by
  have hop : (Op.float (f.op single)).signature = ⟨.f64, [.i32, .f64, .f64, .f64]⟩ :=
    f.op_signature single
  have hquad := Paired.quad hop hrm ha hb hc
  split
  · exact .un rfl hquad
  · exact hquad

theorem Relation.apply_paired {rel : Relation} {l : FloatLane} (ha : Paired P s a a' .v128)
    (hb : Paired P s b b' .v128) : Paired P s (rel.apply l a b) (rel.apply l a' b') .v128 := by
  cases l <;> cases rel <;> first | exact .bin rfl ha hb | exact .bin rfl hb ha

theorem Root.apply_paired (op : Root) (ha : Paired P s a a' .i32) (hb : Paired P s b b' .f64) :
    Paired P s (op.apply a b) (op.apply a' b') .f64 := by
  cases op with
  | sqrt => exact .bin rfl ha hb
  | recipEst | rsqrtEst => exact .un rfl hb

theorem SignChange.apply_paired {op : SignChange} (ha : Paired P s a a' .v128)
    (hb : Paired P s b b' .v128) : Paired P s (op.apply a b) (op.apply a' b') .v128 := by
  cases op with
  | abs => exact .bin rfl ha (.un rfl hb)
  | nabs | neg => exact .bin rfl ha hb

theorem logic_paired {op : Op} {invertSecond invertResult : Bool}
    (hop : op.signature = .same .v128) (ha : Paired P s a a' .v128) (hb : Paired P s b b' .v128) :
    Paired P s
      (if invertResult then .un (.vector .not)
          (.bin op a (if invertSecond then .un (.vector .not) b else b))
        else .bin op a (if invertSecond then .un (.vector .not) b else b))
      (if invertResult then .un (.vector .not)
          (.bin op a' (if invertSecond then .un (.vector .not) b' else b'))
        else .bin op a' (if invertSecond then .un (.vector .not) b' else b')) .v128 := by
  have hsecond : Paired P s (if invertSecond then .un (.vector .not) b else b)
      (if invertSecond then .un (.vector .not) b' else b') .v128 := by
    split
    · exact .un rfl hb
    · exact hb
  have hresult := Paired.bin hop ha hsecond
  split
  · exact .un rfl hresult
  · exact hresult

/-! ## Conversions -/

theorem toInteger_paired {sign : Sign} {target : Word} (he : Paired P s e e' .f64) :
    Paired P s (toInteger sign target e) (toInteger sign target e') .i64 := by
  cases target with
  | w32 => cases sign <;> exact .un rfl (.bin rfl .u32 he)
  | w64 => cases sign <;> exact .bin rfl .u32 he

theorem ofInteger_double {sign : Sign} (ha : Paired P s a a' .i32) (he : Paired P s e e' .i64) :
    Paired P s (ofInteger a sign .double e) (ofInteger a' sign .double e') .f64 := by
  cases sign <;> exact .bin rfl ha he

theorem ofInteger_single {sign : Sign} (ha : Paired P s a a' .i32) (he : Paired P s e e' .i64) :
    Paired P s (ofInteger a sign .single e) (ofInteger a' sign .single e') .f32 := by
  cases sign <;> exact .bin rfl ha he

theorem onHalves_computes {f f' : Expr → Expr} (he : Paired P s e e' .v128)
    (hf : ∀ (s₁ : Stage) [Before s s₁] {d d' : Expr}, Paired P s₁ d d' .i64 →
      Paired P s₁ (f d) (f' d') .i64) :
    Computes P s pending (onHalves e f) (onHalves e' f') .v128 := by
  unfold onHalves
  refine .bind (splitHalves_kept he) fun ⟨_, _⟩ ⟨_, _⟩ s₁ _ ⟨hhi, hlo⟩ => ?_
  exact .done (halves_paired (hf s₁ hhi) (hf s₁ hlo))

theorem onEvenWords_computes {f f' : Expr → Expr} (he : Paired P s e e' .v128)
    (hf : ∀ (s₁ : Stage) [Before s s₁] {d d' : Expr}, Paired P s₁ d d' .i32 →
      Paired P s₁ (f d) (f' d') .i64) :
    Computes P s pending (onEvenWords e f) (onEvenWords e' f') .v128 := by
  unfold onEvenWords
  refine .bind (splitWords_kept he) fun _ _ s₁ _ hwords => ?_
  exact .done (halves_paired (hf s₁ (lane_paired (by decide) hwords))
    (hf s₁ (lane_paired (by decide) hwords)))

theorem convert_computes {x : Conversion} {r : Nat} (hr : r < 64) :
    Computes P s pending (convert x r) (convert x r) .v128 := by
  unfold convert
  refine hold_runs rounding_reads fun _ _ s₁ _ hrm => ?_
  refine .read (getVsr_reads hr) fun _ _ hv => ?_
  cases x with
  | scalarNarrow =>
      exact .done (highHalf_paired (highWord_paired
        (singleOfDouble_paired hrm (highDouble_paired hv))))
  | scalarWiden =>
      exact .done (highHalf_paired (.un rfl (doubleOfSingle_paired (.un rfl (.un rfl hv)))))
  | scalarToInt sign target =>
      exact .done (highHalf_paired (toInteger_paired (highDouble_paired hv)))
  | scalarOfInt sign target =>
      cases target with
      | single =>
          exact .done (highHalf_paired (.un rfl (.un rfl (ofInteger_single hrm (.un rfl hv)))))
      | double => exact .done (highHalf_paired (.un rfl (ofInteger_double hrm (.un rfl hv))))
  | narrow =>
      exact (onHalves_computes hv fun _ _ _ _ hd =>
        highWord_paired (singleOfDouble_paired hrm.up (.un rfl hd))).last
  | widen =>
      exact (onEvenWords_computes hv fun _ _ _ _ hd => .un rfl (doubleOfSingle_paired hd)).last
  | doublesToInt sign target =>
      cases target with
      | w64 => exact (onHalves_computes hv fun _ _ _ _ hd => toInteger_paired (.un rfl hd)).last
      | w32 =>
          exact (onHalves_computes hv fun _ _ _ _ hd =>
            highWord_paired (.un rfl (toInteger_paired (.un rfl hd)))).last
  | singlesToInt sign target =>
      cases target with
      | w32 => cases sign <;> exact .done (.un rfl hv)
      | w64 =>
          exact (onEvenWords_computes hv fun _ _ _ _ hd =>
            toInteger_paired (doubleOfSingle_paired hd)).last
  | ofDoublewords sign target =>
      cases target with
      | single =>
          exact (onHalves_computes hv fun _ _ _ _ hd =>
            highWord_paired (.un rfl (ofInteger_single hrm.up hd))).last
      | double =>
          exact (onHalves_computes hv fun _ _ _ _ hd => .un rfl (ofInteger_double hrm.up hd)).last
  | ofWords sign target =>
      cases target with
      | single => cases sign <;> exact .done (.un rfl hv)
      | double =>
          cases sign <;> exact (onEvenWords_computes hv fun _ _ _ _ hd =>
            .un rfl (ofInteger_double hrm.up (.un rfl hd))).last

/-! ## Instructions -/

theorem compareScalar_emits {name : String} :
    Emits P s pending (compareScalar w name) (compareScalar w name) := by
  unfold compareScalar
  refine .guard reservedZero_guards fun _ => .give listed_gives ?_
  refine .bind (readLanes_kept w.xa_lt) fun _ _ _ _ ha => ?_
  refine .bind (readLanes_kept w.xb_lt) fun _ _ s₁ _ hb => ?_
  have ha : PairedList P s₁ _ _ (List.replicate 1 .f64) := ha.up
  refine .bind (bind_computes (.bin rfl (lane_paired (by decide) ha)
    (lane_paired (by decide) hb))) fun _ _ _ _ h => ?_
  exact (FloatingPoint.putOrder_emits w.crfd_lt h).last

/-- Lanes rounded to whole numbers. -/
theorem roundLanes_emits {l : Lanes} {rm rm' : Expr} (hrm : Paired P s rm rm' .i32) :
    Emits P s pending
      (do let b ← readLanes w.xb l
          putVsr w.xt <| ofLanes l fun i => .bin (.float .roundToInt) rm (lane b i))
      (do let b ← readLanes w.xb l
          putVsr w.xt <| ofLanes l fun i => .bin (.float .roundToInt) rm' (lane b i)) := by
  refine .bind (readLanes_kept w.xb_lt) fun _ _ _ _ hb => ?_
  refine (putVsr_emits w.xt_lt (ofLanes_paired fun i hi => ?_)).last
  exact .bin rfl hrm.up (lane_paired hi hb)

/-- The operations whose operators combine vectors. -/
def Operation.isTyped : Operation → Bool
  | .logic op _ _ => op.signature = .same .v128
  | _ => true

theorem emit_emits {name : String} {op : Operation} (hop : op.isTyped = true) :
    Emits P s pending (emit w name op) (emit w name op) := by
  cases op with
  | arithmetic l op =>
      refine .give listed_gives ?_
      refine hold_runs rounding_reads fun _ _ _ _ hrm => ?_
      refine .bind (readLanes_kept w.xa_lt) fun _ _ _ _ ha => ?_
      refine .bind (readLanes_kept w.xb_lt) fun _ _ s₁ _ hb => ?_
      have ha : PairedList P s₁ _ _ (List.replicate l.count .f64) := ha.up
      refine (putVsr_emits w.xt_lt (ofLanes_paired fun i hi => ?_)).last
      exact .tri (op.op_signature _) hrm.up (lane_paired hi ha) (lane_paired hi hb)
  | fused l f =>
      refine .give listed_gives ?_
      refine hold_runs rounding_reads fun rm rm' _ _ hrm => ?_
      refine .bind (readLanes_kept w.xa_lt) fun a a' _ _ ha => ?_
      refine .bind (readLanes_kept w.xb_lt) fun _ _ _ _ hb => ?_
      refine .bind (readLanes_kept w.xt_lt) fun _ _ s₁ _ ht => ?_
      have ha : PairedList P s₁ _ _ (List.replicate l.count .f64) := ha.up
      have hb : PairedList P s₁ _ _ (List.replicate l.count .f64) := hb.up
      dsimp only
      cases f.factorInTarget
      · exact (putVsr_emits w.xt_lt (ofLanes_paired fun i hi =>
          f.result_paired hrm.up (lane_paired hi ha) (lane_paired hi hb) (lane_paired hi ht))).last
      · exact (putVsr_emits w.xt_lt (ofLanes_paired fun i hi =>
          f.result_paired hrm.up (lane_paired hi ha) (lane_paired hi ht) (lane_paired hi hb))).last
  | compareScalar => exact compareScalar_emits
  | compare l rel =>
      refine .give listed_gives ?_
      refine hold_runs (getVsr_reads w.xa_lt) fun _ _ _ _ ha => ?_
      refine hold_runs (getVsr_reads w.xb_lt) fun _ _ _ _ hb => ?_
      refine .bind (bind_computes (Relation.apply_paired ha.up hb)) fun _ _ _ _ hres => ?_
      refine .when (fun _ => recordLanes_emits hres) fun _ _ => ?_
      exact (putVsr_emits w.xt_lt hres.up).last
  | max l | min l =>
      refine .give listed_gives (.read (getVsr_reads w.xa_lt) fun _ _ ha => ?_)
      refine .read (getVsr_reads w.xb_lt) fun _ _ hb => ?_
      exact putVsr_emits w.xt_lt (keepLanes_paired (.bin rfl ha hb))
  | copySign l =>
      refine .give listed_gives (.bind (bind_computes signMask_paired) fun _ _ _ _ hmask => ?_)
      refine .read (getVsr_reads w.xa_lt) fun _ _ ha => ?_
      refine .read (getVsr_reads w.xb_lt) fun _ _ hb => ?_
      exact (putVsr_emits w.xt_lt (keepLanes_paired
        (.bin rfl (.bin rfl ha hmask) (.bin rfl hb (.un rfl hmask))))).last
  | root l op =>
      refine .give listed_gives ?_
      refine hold_runs rounding_reads fun _ _ _ _ hrm => ?_
      refine .bind (readLanes_kept w.xb_lt) fun _ _ _ _ hb => ?_
      refine (putVsr_emits w.xt_lt (ofLanes_paired fun i hi => ?_)).last
      have hroot := op.apply_paired hrm.up (lane_paired hi hb)
      dsimp only
      split
      · exact .bin rfl hrm.up hroot
      · exact hroot
  | sign l op =>
      refine .give listed_gives (.read (getVsr_reads w.xb_lt) fun _ _ hb => ?_)
      exact putVsr_emits w.xt_lt (keepLanes_paired (SignChange.apply_paired hb signMask_paired))
  | roundInt l mode =>
      refine .give listed_gives ?_
      cases mode with
      | some m => exact .bind (bind_computes .u32) fun _ _ _ _ hrm => (roundLanes_emits hrm).last
      | none =>
          refine .read rounding_reads fun _ _ h => ?_
          exact .bind (bind_computes h) fun _ _ _ _ hrm => (roundLanes_emits hrm).last
  | convert x =>
      refine .give listed_gives (.bind (convert_computes w.xb_lt) fun _ _ _ _ h => ?_)
      exact (putVsr_emits w.xt_lt h).last
  | logic op invertSecond invertResult =>
      refine .give listed_gives (.read (getVsr_reads w.xa_lt) fun _ _ ha => ?_)
      refine .read (getVsr_reads w.xb_lt) fun _ _ hb => putVsr_emits w.xt_lt ?_
      exact logic_paired (of_decide_eq_true hop) ha hb
  | merge high =>
      refine .give listed_gives (.read (getVsr_reads w.xa_lt) fun _ _ ha => ?_)
      refine .read (getVsr_reads w.xb_lt) fun _ _ hb => putVsr_emits w.xt_lt ?_
      cases high <;> exact .bin rfl ha hb
  | splatWord =>
      refine .give listed_gives (.read (getVsr_reads w.xb_lt) fun _ _ hb => ?_)
      exact putVsr_emits w.xt_lt (.un rfl (element_paired hb))
  | shiftWords =>
      refine .give listed_gives (.read (getVsr_reads w.xa_lt) fun _ _ ha => ?_)
      refine .read (getVsr_reads w.xb_lt) fun _ _ hb => putVsr_emits w.xt_lt ?_
      split
      · exact ha
      · exact .bin rfl (.bin rfl ha .u8) (.bin rfl hb .u8)
  | permuteHalves =>
      refine .give listed_gives (.read (getVsr_reads w.xa_lt) fun _ _ ha => ?_)
      refine .read (getVsr_reads w.xb_lt) fun _ _ hb => putVsr_emits w.xt_lt ?_
      have hhalf : ∀ low : Bool, (Op.cast (if low then .lowVto64 else .highVto64)).signature =
          .unary .i64 .v128 := by
        intro low
        cases low <;> rfl
      exact halves_paired (.un (hhalf _) ha) (.un (hhalf _) hb)
  | select =>
      refine .give listed_gives ?_
      refine hold_runs (getVsr_reads w.xc_lt) fun _ _ _ _ hc => ?_
      refine .read (getVsr_reads w.xa_lt) fun _ _ ha => ?_
      refine .read (getVsr_reads w.xb_lt) fun _ _ hb => (putVsr_emits w.xt_lt ?_).last
      exact .bin rfl (.bin rfl ha (.un rfl hc)) (.bin rfl hb hc)

theorem Encoding.all_typed : ∀ x ∈ Encoding.all, x.operation.isTyped = true :=
  List.all_eq_true.mp rfl

theorem Encoding.ofInsn?_typed {x : Encoding} (h : Encoding.ofInsn? w = some x) :
    x.operation.isTyped = true := by
  have hfind : ∀ {key : BitVec 10} {form : Form}, find? key form = some x → x ∈ all :=
    fun h => List.mem_of_find?_eq_some h
  unfold Encoding.ofInsn? at h
  dsimp only at h
  split at h
  · exact all_typed x (hfind h)
  · obtain ⟨form, -, hform⟩ := List.exists_of_findSome?_eq_some h
    exact all_typed x (hfind hform)

theorem lift_ends : Ends P s (lift w) (lift w) := by
  unfold lift
  split
  next => exact refuse_runs
  next x hx =>
    have hemit : Ends P s (emit w x.name x.operation) (emit w x.name x.operation) :=
      Emits.ends (emit_emits (Encoding.ofInsn?_typed hx))
    refine .give read_gives (isa207_runs ?_)
    exact .ite (fun _ => .guard reservedZero_guards fun _ => hemit) fun _ => hemit

end VectorScalar

namespace VectorScalarMemory

open VectorScalar (halves_paired highHalf_paired highDouble_paired lane_paired)

theorem load_emits : Emits P s pending (load w) (load w) := by
  unfold load
  refine hold_runs (eaOr0Idx_reads w.ra_lt w.rb_lt) fun _ _ s₁ _ ha => ?_
  have hput : ∀ {s₂ : Stage} [Before s s₂] {e e' : Expr}, Paired P s₂ e e' .v128 →
      Runs P s₂ pending (putVsr w.xt e) (putVsr w.xt e') (Kept P s pending fun _ _ _ => True) :=
    fun he => (putVsr_emits w.xt_lt he).last
  dsimp only
  split
  case h_1 | h_2 =>
    refine .give listed_gives (.read (load_reads ha) fun _ _ h => .ret (hput ?_))
    exact highHalf_paired (.un rfl h)
  case h_3 =>
    refine .give listed_gives (.read (load_reads ha) fun _ _ h => .ret (hput ?_))
    exact highHalf_paired (.un rfl (.un rfl h))
  case h_4 =>
    exact .give listed_gives (.read (load_reads ha) fun _ _ h => .ret (hput (highHalf_paired h)))
  case h_5 =>
    refine .give listed_gives (.read (load_reads ha) fun _ _ h => ?_)
    exact .bind (bind_computes h) fun _ _ _ _ hd => .ret (hput (halves_paired hd hd))
  case h_6 =>
    refine .give listed_gives (.read (load_reads ha) fun _ _ hhi => ?_)
    refine .read (addrPlus_reads ha) fun _ _ haddr => .read (load_reads haddr) fun _ _ hlo => ?_
    exact .ret (hput (halves_paired hhi hlo))
  case h_7 =>
    have hword : ∀ offset : BitVec 64, Reads P s₁ pending
        (do Lift.load .i32 (← addrPlus _ offset)) (do Lift.load .i32 (← addrPlus _ offset)) .i32 :=
      fun offset => .read (addrPlus_reads ha) fun _ _ haddr => load_reads haddr
    refine .give listed_gives (.read (hword 0) fun _ _ h₀ => .read (hword 4) fun _ _ h₁ => ?_)
    refine .read (hword 8) fun _ _ h₂ => .read (hword 12) fun _ _ h₃ => .ret (hput ?_)
    exact .ofWords h₀ h₁ h₂ h₃

/-- Words at consecutive addresses. -/
theorem storeWords_emits {n k : Nat} {a a' : Expr} {es es' : List Expr}
    (ha : Paired P s a a' P.gprTy) (hes : PairedList P s es es' (List.replicate n .i32)) :
    Emits P s pending
      ((es.zipIdx k).forM fun (word, i) => do
        Lift.store (← addrPlus a (.ofNat 64 (4 * i))) word)
      ((es'.zipIdx k).forM fun (word, i) => do
        Lift.store (← addrPlus a' (.ofNat 64 (4 * i))) word) := by
  induction n generalizing s k es es' with
  | zero =>
      obtain ⟨rfl, rfl⟩ := hes.eq_nil
      exact .done trivial
  | succ n ih =>
      obtain ⟨e, e', fs, fs', rfl, rfl, he, hfs⟩ := hes.exists_cons
      refine .seq ?_ fun s₁ _ => (ih ha.up hfs.up).last
      exact .read (addrPlus_reads ha) fun _ _ haddr => store_lift_emits haddr he (by decide)

theorem store_emits : Emits P s pending (store w) (store w) := by
  unfold store
  refine hold_runs (eaOr0Idx_reads w.ra_lt w.rb_lt) fun _ _ _ _ ha => ?_
  refine hold_runs (getVsr_reads w.xt_lt) fun _ _ _ _ hv => ?_
  dsimp only
  split
  case h_1 =>
    exact .give listed_gives (store_lift_emits ha.up (.un rfl (.un rfl hv)) (by decide)).last
  case h_2 =>
    refine .give listed_gives (.read rounding_reads fun _ _ hrm => ?_)
    exact (store_lift_emits ha.up (.bin rfl hrm (highDouble_paired hv)) (by decide)).last
  case h_3 => exact .give listed_gives (store_lift_emits ha.up (.un rfl hv) (by decide)).last
  case h_4 =>
    refine .give listed_gives ?_
    refine .seq (store_lift_emits ha.up (.un rfl hv) (by decide)) fun _ _ => ?_
    refine .read (addrPlus_reads ha.up) fun _ _ haddr => ?_
    exact (store_lift_emits haddr (.un rfl hv.up) (by decide)).last
  case h_5 =>
    refine .give listed_gives (.bind (splitWords_kept hv) fun _ _ _ _ hwords => ?_)
    exact (storeWords_emits ha.up hwords).last

theorem move_emits : Emits P s pending (move w) (move w) := by
  unfold move
  refine .guard reservedZero_guards fun _ => ?_
  dsimp only
  split
  case h_1 =>
    refine .guard needMode64_guards fun h64 => .give listed_gives ?_
    refine .read (getVsr_reads w.xt_lt) fun _ _ h => putGpr_emits w.ra_lt ?_
    exact .gpr h64 (.un rfl h)
  case h_2 =>
    refine .give listed_gives (.read (getVsr_reads w.xt_lt) fun _ _ h => ?_)
    refine .read (widen_reads (.un rfl (.un rfl h)) .i32) fun _ _ h => ?_
    exact putGpr_emits w.ra_lt h
  case h_3 =>
    refine .guard needMode64_guards fun h64 => .give listed_gives ?_
    refine .read (getGpr_reads w.ra_lt) fun _ _ h => putVsr_emits w.xt_lt ?_
    exact highHalf_paired (h.long h64)
  case h_4 =>
    refine .give listed_gives (.read (getGpr_reads w.ra_lt) fun _ _ h => .give low32_gives ?_)
    refine putVsr_emits w.xt_lt (highHalf_paired (.un ?_ h.low32))
    split <;> rfl

theorem lift_ends : Ends P s (lift w) (lift w) := by
  unfold lift
  refine .give read_gives (isa207_runs ?_)
  dsimp only
  split
  case h_1 | h_2 | h_3 | h_4 | h_5 => exact Emits.ends move_emits
  case h_6 | h_7 | h_8 | h_9 | h_10 | h_11 | h_12 => exact Emits.ends load_emits
  case h_13 | h_14 | h_15 | h_16 | h_17 => exact Emits.ends store_emits
  case h_18 => exact refuse_runs

end VectorScalarMemory

end PowerLift
