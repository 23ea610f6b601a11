import PowerLift.Family.LoadStore
import PowerLift.Family.Multiple
import PowerLift.Family.Reservation
import PowerLift.Proofs.Flags

/-!
# Loads and stores of general registers

Single, multiple, string and reserved transfers.
-/

namespace PowerLift

open Lift
open Stage (Next Before)

variable {P : Placement} {s : Stage} {pending : List Nat} {w : Insn}

/-- Values of every width that a register can hold can be widened to it. -/
theorem Lift.Widens.width {v : Width} (h64 : v = .w64 → P.env.arch.is64 = true) :
    Widens P v.ty := by
  cases v with
  | w8 => exact .i8
  | w16 => exact .i16
  | w32 => exact .i32
  | w64 => exact .gpr (h64 rfl)

theorem Lift.Narrows.width {v : Width} (h64 : v = .w64 → P.env.arch.is64 = true) :
    Narrows P v.ty := by
  cases v with
  | w8 => exact .i8
  | w16 => exact .i16
  | w32 => exact .i32
  | w64 => exact .gpr (h64 rfl)

theorem Width.ty_ne_i1 (v : Width) : v.ty ≠ .i1 := by cases v <;> decide

namespace LoadStore

variable {a a' e e' : Expr}

/-- The widths that a transfer between memory and a general register may have. -/
def Transfer.IsScalar (x : Transfer) : Prop := ∃ v : Width, x.ty = v.ty

theorem Transfer.ofOpcode?_isScalar {n : Nat} {x : Transfer} (h : ofOpcode? n = some x) :
    x.IsScalar := by
  unfold ofOpcode? at h
  split at h <;> cases h
  case h_3 | h_4 | h_7 | h_8 => exact ⟨.w8, rfl⟩
  case h_9 | h_10 | h_11 | h_12 | h_13 | h_14 => exact ⟨.w16, rfl⟩
  case h_1 | h_2 | h_5 | h_6 => exact ⟨.w32, rfl⟩

theorem Transfer.ofIndexed?_isScalar {n : Nat} {x : Transfer} (h : ofIndexed? n = some x) :
    x.IsScalar := by
  unfold ofIndexed? at h
  split at h <;> cases h <;>
    first | exact ⟨.w8, rfl⟩ | exact ⟨.w16, rfl⟩ | exact ⟨.w32, rfl⟩ | exact ⟨.w64, rfl⟩

theorem Transfer.ofDoubleword?_isScalar {n m : Nat} {x : Transfer}
    (h : ofDoubleword? n m = some x) : x.IsScalar := by
  unfold ofDoubleword? at h
  split at h <;> cases h <;> first | exact ⟨.w32, rfl⟩ | exact ⟨.w64, rfl⟩

theorem reverseBytes_paired {τ : Ty} (he : Paired P s e e' τ) :
    Paired P s (reverseBytes τ e) (reverseBytes τ e') τ := by
  unfold reverseBytes
  split
  case h_1 | h_2 | h_3 => exact .un rfl he
  case h_4 => exact he

theorem emit_emits {x : Transfer} (hx : x.IsScalar) (ha : Paired P s a a' P.gprTy) :
    Emits P s pending (emit w x a) (emit w x a') := by
  unfold emit
  obtain ⟨v, hv⟩ := hx
  refine .guardWhen (fun _ => needMode64_guards) fun h64 => ?_
  -- Doublewords were refused in 32-bit mode.
  have hwide : v = .w64 → P.env.arch.is64 = true := by
    rintro rfl
    exact h64 (.inl hv)
  have hordered : ∀ {s₁ : Stage} {e e' : Expr}, Paired P s₁ e e' x.ty →
      Paired P s₁ (if x.reversed then reverseBytes x.ty e else e)
        (if x.reversed then reverseBytes x.ty e' else e') x.ty := by
    intro s₁ e e' he
    split
    · exact reverseBytes_paired he
    · exact he
  extract_lets ordered transfer transfer'
  have htransfer : Emits P s pending (transfer ()) (transfer' ()) := by
    refine .bind (bind_computes ha) fun _ _ _ _ ha => .ite (fun _ => ?_) fun _ => ?_
    · refine .read (getGpr_reads w.rd_lt) fun _ _ h => ?_
      refine .read (narrow_reads h (hv ▸ .width hwide)) fun _ _ h => ?_
      refine .seq (store_lift_emits ha (hordered h) (hv ▸ v.ty_ne_i1)) fun _ _ => ?_
      exact .ite (fun _ => (putGpr_emits w.ra_lt ha.up).last) fun _ => .done trivial
    · refine .read (load_reads ha) fun _ _ h => ?_
      refine .read (widen_reads (hordered h) (hv ▸ .width hwide)) fun _ _ h => ?_
      refine .seq (putGpr_emits w.rd_lt h) fun _ _ => ?_
      exact .ite (fun _ => (putGpr_emits w.ra_lt ha.up).last) fun _ => .done trivial
  refine .ite (fun _ => ?_) fun _ => htransfer
  exact .guard invalidIf_guards fun _ => .guard invalidIf_guards fun _ => htransfer

theorem displaced_emits {x : Transfer} {disp : Int} (hx : x.IsScalar) :
    Emits P s pending (displaced w x disp) (displaced w x disp) := by
  unfold displaced
  refine .give listed_gives (.ite (fun _ => ?_) fun _ => ?_)
  · exact .read (eaDisp_reads w.ra_lt) fun _ _ ha => emit_emits hx ha
  · exact .read (eaOr0Disp_reads w.ra_lt) fun _ _ ha => emit_emits hx ha

theorem immediate_emits : Emits P s pending (immediate w) (immediate w) := by
  unfold immediate
  split
  next x hx => exact displaced_emits (Transfer.ofOpcode?_isScalar hx)
  next => exact refuse_runs

theorem doubleword_emits : Emits P s pending (doubleword w) (doubleword w) := by
  unfold doubleword
  refine .guard needMode64_guards fun _ => ?_
  split
  next x hx => exact displaced_emits (Transfer.ofDoubleword?_isScalar hx)
  next => exact refuse_runs

theorem indexed_emits : Emits P s pending (indexed w) (indexed w) := by
  unfold indexed
  split
  next x hx =>
    have hx := Transfer.ofIndexed?_isScalar hx
    refine .guard reservedClear_guards fun _ => .give listed_gives (.ite (fun _ => ?_) fun _ => ?_)
    · exact .read (eaIdx_reads w.ra_lt w.rb_lt) fun _ _ ha => emit_emits hx ha
    · exact .read (eaOr0Idx_reads w.ra_lt w.rb_lt) fun _ _ ha => emit_emits hx ha
  next => exact refuse_runs

theorem quadword_emits {isStore : Bool} :
    Emits P s pending (quadword w isStore) (quadword w isStore) := by
  unfold quadword
  refine .guard needMode64_guards fun h64 => .guard invalidIf_guards fun hpair => ?_
  have hpair := Insn.pair_lt w.rd_lt hpair
  extract_lets name transfer
  have htransfer : ∀ disp, Emits P s pending (transfer disp) (transfer disp) := by
    intro disp
    refine .give listed_gives ?_
    refine hold_runs (eaOr0Disp_reads w.ra_lt) fun _ _ _ _ ha => .read (quadHalves_reads ha) ?_
    rintro ⟨hi, lo⟩ ⟨hi', lo'⟩ ⟨hhi, hlo⟩
    refine .ite (fun _ => ?_) fun _ => ?_
    · refine .read (getGpr_reads w.rd_lt) fun _ _ h => ?_
      refine .seq (store_lift_emits hhi (h.long h64) (by decide)) fun _ _ => ?_
      refine .read (getGpr_reads hpair) fun _ _ h => ?_
      exact (store_lift_emits hlo.up (h.long h64) (by decide)).last
    · refine hold_runs (load_reads hhi) fun _ _ _ _ hfirst => ?_
      refine hold_runs (load_reads hlo.up) fun _ _ _ _ hsecond => ?_
      refine .seq (putGpr_emits w.rd_lt (hfirst.up.gpr h64)) fun _ _ => ?_
      exact (putGpr_emits hpair (hsecond.up.gpr h64)).last
  refine .ite (fun _ => .ret (htransfer _)) fun _ => ?_
  refine .guard reservedZero_guards fun _ => .guard invalidIf_guards fun _ => ?_
  exact .ret (htransfer _)

theorem lift_ends : Ends P s (lift w) (lift w) := by
  unfold lift
  refine .ite (fun _ => Emits.ends immediate_emits) fun _ => ?_
  split
  · exact Emits.ends quadword_emits
  · exact .ite (fun _ => Emits.ends quadword_emits) fun _ => Emits.ends doubleword_emits
  · exact Emits.ends doubleword_emits
  · exact Emits.ends indexed_emits
  · exact refuse_runs

end LoadStore

namespace Multiple

variable {a a' : Expr}

theorem registers_emits : Emits P s pending (registers w) (registers w) := by
  unfold registers
  refine .guardWhen (fun _ => invalidIf_guards) fun _ => .give listed_gives ?_
  refine hold_runs (eaOr0Disp_reads w.ra_lt) fun _ _ _ _ ha => ?_
  refine (forM_emits fun i hi s₁ _ => ?_).last
  -- The transfer ends with the last register and does not wrap around.
  have hreg : w.rd + i < 32 := by
    have := List.mem_range.mp hi
    omega
  refine .read (addrPlus_reads ha.up) fun _ _ haddr => .ite (fun _ => ?_) fun _ => ?_
  · refine .read (load_reads haddr) fun _ _ h => .read (widen_reads h .i32) fun _ _ h => ?_
    exact putGpr_emits hreg h
  · refine .read (getGpr_reads hreg) fun _ _ h => .give low32_gives ?_
    exact store_lift_emits haddr h.low32 (by decide)

theorem moveByte_emits {first i : Nat} {isLoad : Bool} {length length' : Option Expr}
    (ha : Paired P s a a' P.gprTy) (hlength : PairedOption P s .i32 length length') :
    Emits P s pending (moveByte a first isLoad length i) (moveByte a' first isLoad length' i) := by
  have hreg : (first + i / 4) % 32 < 32 := Nat.mod_lt _ (by decide)
  unfold moveByte
  refine .give read_gives ?_
  extract_lets reg shift move move'
  have hmove : ∀ {s₁ : Stage} [Before s s₁],
      Runs P s₁ pending (move ()) (move' ()) (Kept P s pending fun _ _ _ => True) := by
    intro s₁ _
    refine .read (addrPlus_reads ha.up) fun _ _ haddr => .ite (fun _ => ?_) fun _ => ?_
    · refine .when (fun _ => putGpr_emits hreg .imm) fun _ _ => ?_
      refine .read (load_reads haddr.up) fun _ _ h => .read (widen_reads h .i8) fun _ _ hbyte => ?_
      refine .give wordOp_gives (.read (getGpr_reads hreg) fun _ _ hold => .give wordOp_gives ?_)
      exact (putGpr_emits hreg (.bin rfl hold (.bin rfl hbyte .u8))).last
    · refine .read (getGpr_reads hreg) fun _ _ h => .give low32_gives ?_
      exact (store_lift_emits haddr (.un rfl (.bin rfl h.low32 .u8)) (by decide)).last
  -- With a variable length each byte is behind an exit for lengths that end before it.
  cases hlength with
  | none => exact hmove
  | some hn =>
      refine .seq (exit_emits (.bin rfl hn .u32) (by decide) (by decide) Env.nia_aligned) ?_
      exact fun _ _ => hmove

theorem moveBytes_emits {first max : Nat} {isLoad : Bool} {length length' : Option Expr}
    (ha : Paired P s a a' P.gprTy) (hlength : PairedOption P s .i32 length length') :
    Emits P s pending (moveBytes a first isLoad max length)
      (moveBytes a' first isLoad max length') :=
  forM_emits fun _ _ _ _ => moveByte_emits ha.up hlength.up

theorem string_ends : Ends P s (string w) (string w) := by
  unfold string
  refine .ite (fun _ => .guardWhen (fun _ => invalidIf_guards) fun _ => ?_) fun _ =>
    .guardWhen (fun _ => invalidIf_guards) fun _ => ?_
  · refine .give listed_gives ?_
    refine hold_runs (eaOr0_reads w.ra_lt) fun _ _ _ _ ha => ?_
    exact Emits.ends (moveBytes_emits ha .none)
  · refine .give listed_gives ?_
    refine hold_runs (eaOr0Idx_reads w.ra_lt w.rb_lt) fun _ _ _ _ ha => ?_
    refine .read getXerBc_reads fun _ _ hbc => ?_
    refine .bind (bind_computes (.un rfl hbc)) fun _ _ _ _ hn => ?_
    refine .seq (moveBytes_emits ha.up (.some hn)) fun _ _ => ?_
    exact stopAtNext_ends (by decide)

theorem lift_ends : Ends P s (lift w) (lift w) := by
  unfold lift
  split
  case h_1 | h_2 => exact Emits.ends registers_emits
  case h_3 | h_4 | h_5 | h_6 => exact string_ends
  case h_7 => exact refuse_runs

end Multiple

namespace Reservation

theorem alignedAddress_computes {bytes : Nat} (hquiet : s.Quiet)
    (halign : ¬(BitVec.ofNat 64 bytes = 0 ∨
      BitVec.ofNat 64 bytes &&& (BitVec.ofNat 64 bytes - 1) ≠ 0)) :
    Computes P s pending (alignedAddress w bytes) (alignedAddress w bytes) P.gprTy := by
  unfold alignedAddress
  refine .read (eaOr0Idx_reads w.ra_lt w.rb_lt) fun _ _ h => ?_
  refine .bind (bind_kept h) fun _ _ _ _ ⟨ha, hquiet₁, _⟩ => ?_
  exact .seq (requireAligned_emits ha (hquiet₁ hquiet) halign) fun _ _ => .done ha.up

/-- The size of an access is a power of two. -/
theorem aligned_bytes (v : Width) :
    ¬(BitVec.ofNat 64 (v.bits / 8) = 0 ∨
      BitVec.ofNat 64 (v.bits / 8) &&& (BitVec.ofNat 64 (v.bits / 8) - 1) ≠ 0) := by
  cases v <;> decide

variable {t t' : Nat} {a a' e e' : Expr} {τ : Ty}

theorem loadLinked_settles (ht : Owed P s t t' τ) (hτ : τ.isInt = true)
    (ha : Paired P s a a' P.gprTy) :
    Runs P s (t :: pending) (loadLinked t a) (loadLinked t' a')
      (Kept P s pending fun _ _ s₁ => Paired P s₁ (.tmp t) (.tmp t') τ) :=
  .give read_gives (loadLinked_kept ht hτ ha)

theorem storeConditional_settles (ht : Owed P s t t' .i1) (ha : Paired P s a a' P.gprTy)
    (he : Paired P s e e' τ) (hτ : τ ≠ .i1) :
    Runs P s (t :: pending) (storeConditional t a e) (storeConditional t' a' e')
      (Kept P s pending fun _ _ s₁ => Paired P s₁ (.tmp t) (.tmp t') .i1) :=
  .give read_gives (storeConditional_kept ht ha he hτ)

theorem load_emits {v : Width} (hquiet : s.Quiet) :
    Emits P s pending (load w v) (load w v) := by
  unfold load
  refine .guardWhen (fun _ => needMode64_guards) fun h64 => .give listed_gives ?_
  refine .bind (alignedAddress_computes hquiet (aligned_bytes v)) fun _ _ _ _ ha => ?_
  refine .bind newTemp_kept ?_
  rintro _ t' s₁ _ ⟨rfl, ht⟩
  refine .bind (loadLinked_settles ht (by cases v <;> rfl) ha.up) fun _ _ _ _ hvalue => ?_
  exact .read (widen_reads hvalue (.width h64)) fun _ _ h => (putGpr_emits w.rd_lt h).last

theorem recordStore_emits (ht : Paired P s (.tmp t) (.tmp t') .i1) :
    Emits P s pending (recordStore t) (recordStore t') :=
  setCrOrdering_emits (by decide) (.bin rfl (.un rfl ht) .u8)
    (.weaken (bit_bounded 1 (by decide)) (by decide))

theorem store_emits {v : Width} (hquiet : s.Quiet) :
    Emits P s pending (store w v) (store w v) := by
  unfold store
  refine .guardWhen (fun _ => needMode64_guards) fun h64 => .guard invalidIf_guards fun _ => ?_
  refine .give listed_gives ?_
  refine .bind (alignedAddress_computes hquiet (aligned_bytes v)) fun _ _ _ _ ha => ?_
  refine .read (getGpr_reads w.rd_lt) fun _ _ h => ?_
  refine .read (narrow_reads h (.width h64)) fun _ _ hv => ?_
  refine .bind newTemp_kept ?_
  rintro _ t' s₁ _ ⟨rfl, ht⟩
  refine .bind (storeConditional_settles ht ha.up hv.up v.ty_ne_i1) fun _ _ _ _ hok => ?_
  exact (recordStore_emits hok).last

theorem loadQuad_emits (hquiet : s.Quiet) : Emits P s pending (loadQuad w) (loadQuad w) := by
  unfold loadQuad
  refine .guard needMode64_guards fun h64 => .guard invalidIf_guards fun hpair => ?_
  refine .guard invalidIf_guards fun _ => .give listed_gives ?_
  refine .bind (alignedAddress_computes hquiet (by decide)) fun _ _ _ _ ha => ?_
  refine .read (quadHalves_reads ha) fun ⟨_, _⟩ ⟨_, _⟩ ⟨hhi, hlo⟩ => .bind newTemp_kept ?_
  rintro _ hi' s₁ _ ⟨rfl, hi⟩
  refine .bind newTemp_kept ?_
  rintro _ lo' s₂ _ ⟨rfl, lo⟩
  -- The temporary that was made first is also bound first.
  refine .perm (.swap _ _ _) (.bind (loadLinked_settles hi.up rfl hhi.up) fun _ _ _ _ hfirst => ?_)
  refine .bind (loadLinked_settles lo.up rfl hlo.up) fun _ _ _ _ hsecond => ?_
  refine .seq (putGpr_emits w.rd_lt (hfirst.up.gpr h64)) fun _ _ => ?_
  exact (putGpr_emits (Insn.pair_lt w.rd_lt hpair) (hsecond.up.gpr h64)).last

theorem storeQuad_emits (hquiet : s.Quiet) : Emits P s pending (storeQuad w) (storeQuad w) := by
  unfold storeQuad
  refine .guard needMode64_guards fun h64 => .guard invalidIf_guards fun _ => ?_
  refine .guard invalidIf_guards fun hpair => .give listed_gives ?_
  refine .bind (alignedAddress_computes hquiet (by decide)) fun _ _ _ _ ha => ?_
  refine .read (quadHalves_reads ha) fun ⟨_, _⟩ ⟨_, _⟩ ⟨hhi, hlo⟩ => .bind newTemp_kept ?_
  rintro _ t' s₁ _ ⟨rfl, ht⟩
  refine .read (getGpr_reads w.rd_lt) fun _ _ h => ?_
  refine .bind (storeConditional_settles ht hhi.up (h.long h64) (by decide)) fun _ _ _ _ hok => ?_
  refine .read (getGpr_reads (Insn.pair_lt w.rd_lt hpair)) fun _ _ h => ?_
  refine .seq (store_lift_emits hlo.up (h.long h64) (by decide)) fun _ _ => ?_
  exact (recordStore_emits hok.up).last

theorem lift_ends (hquiet : s.Quiet) : Ends P s (lift w) (lift w) := by
  unfold lift
  split
  case h_1 | h_2 | h_3 | h_4 => exact Emits.ends (load_emits hquiet)
  case h_5 | h_6 | h_7 | h_8 => exact Emits.ends (store_emits hquiet)
  case h_9 => exact Emits.ends (loadQuad_emits hquiet)
  case h_10 => exact Emits.ends (storeQuad_emits hquiet)
  case h_11 => exact refuse_runs

end Reservation

end PowerLift
