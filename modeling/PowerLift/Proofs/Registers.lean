import PowerLift.Proofs.Primitive

/-!
# Register accesses

Reads of registers are typed expressions, and writes of typed expressions succeed, for every
register number that fits its file.
-/

namespace PowerLift

namespace Insn

variable (w : Insn)

theorem bits_lt (shift width : Nat) : w.bits shift width < Nat.pow 2 width := BitVec.isLt _

theorem rd_lt : w.rd < 32 := w.bits_lt 21 5
theorem ra_lt : w.ra < 32 := w.bits_lt 16 5
theorem rb_lt : w.rb < 32 := w.bits_lt 11 5
theorem rcField_lt : w.rcField < 32 := w.bits_lt 6 5
theorem crfd_lt : w.crfd < 8 := w.bits_lt 23 3
theorem crfs_lt : w.crfs < 8 := w.bits_lt 18 3

/-- Five bits below a sixth. -/
theorem sixBits_lt {low : Nat} (hlow : low < 32) (shift : Nat) :
    low ||| (w.bits shift 1 <<< 5) < 64 := by
  have hhigh : w.bits shift 1 < 2 := w.bits_lt shift 1
  exact Nat.or_lt_two_pow (n := 6) (by omega) (by rw [Nat.shiftLeft_eq]; omega)

theorem xt_lt : w.xt < 64 := w.sixBits_lt w.rd_lt 0
theorem xa_lt : w.xa < 64 := w.sixBits_lt w.ra_lt 2
theorem xb_lt : w.xb < 64 := w.sixBits_lt w.rb_lt 1
theorem xc_lt : w.xc < 64 := w.sixBits_lt w.rcField_lt 3
theorem sh6_lt : w.sh6 < 64 := w.sixBits_lt w.rb_lt 1
theorem mb6_lt : w.mb6 < 64 := w.sixBits_lt w.rcField_lt 5

/-- The register behind an even one. -/
theorem pair_lt {i : Nat} (hi : i < 32) (heven : (i % 2 != 0) = false) : i + 1 < 32 := by
  have heven : i % 2 = 0 := by simpa using heven
  omega

end Insn

/-- The slots that exist. -/
def Slot.InRange : Slot → Prop
  | .gpr i => i < 32
  | .vsr i => i < 64
  | .cr321 n | .cr0 n => n < 8
  | .special _ => True

theorem Layout.locate_eq (arch : Arch) {slot : Slot} (h : slot.InRange) :
    ∃ offset, locate arch slot = .ok ⟨offset, slot.ty arch⟩ := by
  cases slot <;> simp_all [Slot.InRange, locate, offset, Except.map]

/-- Flags are bytes. -/
theorem Slot.flag_byte {slot : Slot} {mask : Nat} (arch : Arch) (h : slot.flagBits? = some mask) :
    slot ≠ .special .cia ∧ slot.ty arch = .i8 := by
  cases slot with
  | special x => cases x <;> simp_all [flagBits?, ty, SpecialSlot.ty]
  | _ => simp_all [flagBits?, ty]

/-- The slots to which anything may be written. -/
def Slot.IsPlain (slot : Slot) : Prop :=
  slot ≠ .special .cia ∧ slot.flagBits? = none ∧ slot.stickyBits? = none

instance (slot : Slot) : Decidable slot.IsPlain :=
  inferInstanceAs (Decidable (slot ≠ .special .cia ∧ slot.flagBits? = none ∧
    slot.stickyBits? = none))

theorem Slot.IsPlain.ne_cia {x : SpecialSlot} (h : (x : Slot).IsPlain) : x ≠ .cia :=
  fun hx => h.1 (congrArg Slot.special hx)

namespace Lift

variable {P : Placement} {s : Stage} {pending : List Nat}

/-- A place that the guest's layout has for a register. -/
structure Located (P : Placement) (place : Arch → Except Fault Layout.Place) (τ : Ty) : Prop where
  exists_place : ∃ p, place P.env.arch = .ok p ∧ p.ty = τ ∧ Layout.Register P.env.arch P.env.host p

theorem getPlace_reads {place : Arch → Except Fault Layout.Place} {τ : Ty}
    (h : Located P place τ) :
    Reads P s pending (getPlace (place P.env.layout)) (getPlace (place P.env.layout)) τ := by
  obtain ⟨p, hp, rfl, hregister⟩ := h
  rw [P.layout_eq, hp]
  exact .give (ofExcept_gives rfl rfl) (.pure ⟨rfl, rfl, hregister⟩)

/-- A place of the guest's layout to which an expression may be written: one of a flag takes its bits
only, one byte of a condition field is written by itself only where single bits are combined, and
sticky bits are kept. -/
structure Taken (P : Placement) (s : Stage) (place : Arch → Except Fault Layout.Place) (e : Expr)
    (τ : Ty) : Prop where
  exists_place : ∃ p, place P.env.arch = .ok p ∧ p.ty = τ ∧
    Layout.Accepts P.env.arch P.env.host s.stmts.toList e p ∧
    (¬P.word.IsBitLogic → (Stmt.put p.offset e).OffFields P.env.arch) ∧
    (Stmt.put p.offset e).Keeps P.env.arch P.word

theorem putPlace_emits {place : Arch → Except Fault Layout.Place} {τ : Ty} {e e' : Expr}
    (h : Taken P s place e τ) (he : Paired P s e e' τ) :
    Emits P s pending (putPlace (place P.env.layout) e) (putPlace (place P.env.layout) e') := by
  obtain ⟨p, hp, rfl, haccepts, hoff, hkeeps⟩ := h
  rw [P.layout_eq, hp]
  exact .give (ofExcept_gives rfl rfl) (put_emits haccepts hoff hkeeps he)

theorem located_slot {slot : Slot} {τ : Ty} (hslot : slot ≠ .special .cia) (hrange : slot.InRange)
    (hty : slot.ty P.env.arch = τ) : Located P (Layout.locate · slot) τ := by
  obtain ⟨offset, h⟩ := Layout.locate_eq P.env.arch hrange
  exact ⟨_, h, hty, .slot slot hslot h⟩

theorem getSlot_reads {slot : Slot} {τ : Ty} (hslot : slot ≠ .special .cia)
    (hrange : slot.InRange) (hty : slot.ty P.env.arch = τ) :
    Reads P s pending (getSlot slot) (getSlot slot) τ :=
  read_gives.give (getPlace_reads (located_slot hslot hrange hty))

theorem taken_slot {slot : Slot} {τ : Ty} {e : Expr} (hslot : slot ≠ .special .cia)
    (hrange : slot.InRange) (hty : slot.ty P.env.arch = τ)
    (hflag : ∀ mask, slot.flagBits? = some mask → Bounded P s e mask)
    (hfield : slot.isField = true → P.word.IsBitLogic)
    (hsticky : ∀ mask p, slot.stickyBits? = some mask → Layout.locate P.env.arch slot = .ok p →
      ¬P.word.Resets slot → (Expr.get p.offset p.ty).CarriedBy mask e) :
    Taken P s (Layout.locate · slot) e τ := by
  obtain ⟨offset, h⟩ := Layout.locate_eq P.env.arch hrange
  refine ⟨_, h, hty, .slot slot hslot h hflag, fun hw => ?_,
    Stmt.keeps_slot h fun mask hmask => hsticky mask _ hmask h⟩
  cases hs : slot.isField with
  | false => exact Stmt.offFields_slot h hs
  | true => exact absurd (hfield hs) hw

/-- A slot to which anything may be written. -/
theorem taken_plain {slot : Slot} {τ : Ty} {e : Expr} (hslot : slot.IsPlain)
    (hrange : slot.InRange) (hty : slot.ty P.env.arch = τ) :
    Taken P s (Layout.locate · slot) e τ := by
  obtain ⟨hcia, hflag, hsticky⟩ := hslot
  refine taken_slot hcia hrange hty (fun mask hmask => ?_) (fun hfield => ?_) fun mask p hmask => ?_
  · rw [hflag] at hmask
    contradiction
  · cases slot <;> simp [Slot.isField, Slot.flagBits?] at hfield hflag
  · rw [hsticky] at hmask
    contradiction

theorem putSlot_emits {slot : Slot} {τ : Ty} {e e' : Expr} (hslot : slot.IsPlain)
    (hrange : slot.InRange) (hty : slot.ty P.env.arch = τ) (he : Paired P s e e' τ) :
    Emits P s pending (putSlot slot e) (putSlot slot e') :=
  read_gives.give (putPlace_emits (taken_plain hslot hrange hty) he)

/-- A flag byte, which takes its bits only. -/
theorem putFlag_emits {slot : Slot} {mask : Nat} {e e' : Expr}
    (hflag : slot.flagBits? = some mask) (hrange : slot.InRange)
    (hfield : slot.isField = true → P.word.IsBitLogic)
    (hsticky : ∀ mask p, slot.stickyBits? = some mask → Layout.locate P.env.arch slot = .ok p →
      ¬P.word.Resets slot → (Expr.get p.offset p.ty).CarriedBy mask e)
    (he : Paired P s e e' .i8) (hmask : Bounded P s e mask) :
    Emits P s pending (putSlot slot e) (putSlot slot e') := by
  obtain ⟨hslot, hty⟩ := Slot.flag_byte P.env.arch hflag
  refine read_gives.give (putPlace_emits (taken_slot hslot hrange hty ?_ hfield hsticky) he)
  intro mask' hmask'
  obtain rfl : mask = mask' := Option.some.inj (hflag.symm.trans hmask')
  exact hmask

/-- A flag byte that is read has its bits only. -/
theorem getFlag_reads {slot : Slot} {mask : Nat} (hflag : slot.flagBits? = some mask)
    (hrange : slot.InRange) :
    Runs P s pending (getSlot slot) (getSlot slot) (Still P s fun e e' =>
      Paired P s e e' .i8 ∧ Bounded P s e mask) := by
  obtain ⟨hslot, hty⟩ := Slot.flag_byte P.env.arch hflag
  obtain ⟨offset, h⟩ := Layout.locate_eq P.env.arch hrange
  rw [hty] at h
  unfold getSlot
  refine read_gives.give ?_
  rw [Placement.alone_layout, P.layout_eq, h]
  exact .give (ofExcept_gives rfl rfl) (.pure ⟨⟨rfl, rfl, .slot slot hslot h⟩, .flag hflag h⟩)

/-! ## General, floating-point and vector registers -/

theorem getGpr_reads {i : Nat} (hi : i < 32) :
    Reads P s pending (getGpr i) (getGpr i) P.gprTy :=
  getSlot_reads (by simp) hi P.env.arch.wordTy_eq

theorem putGpr_emits {i : Nat} {e e' : Expr} (hi : i < 32) (he : Paired P s e e' P.gprTy) :
    Emits P s pending (putGpr i e) (putGpr i e') :=
  putSlot_emits ⟨by simp, rfl, rfl⟩ hi P.env.arch.wordTy_eq he

theorem getVsr_reads {i : Nat} (hi : i < 64) : Reads P s pending (getVsr i) (getVsr i) .v128 :=
  getSlot_reads (by simp) hi rfl

theorem putVsr_emits {i : Nat} {e e' : Expr} (hi : i < 64) (he : Paired P s e e' .v128) :
    Emits P s pending (putVsr i e) (putVsr i e') :=
  putSlot_emits ⟨by simp, rfl, rfl⟩ hi rfl he

theorem located_vr {i : Nat} (hi : i < 32) : Located P (Layout.vr · i) .v128 := by
  simp only [Layout.vr, hi, if_true]
  exact located_slot (by simp) (show i + 32 < 64 by omega) rfl

theorem getVr_reads {i : Nat} (hi : i < 32) : Reads P s pending (getVr i) (getVr i) .v128 :=
  read_gives.give (getPlace_reads (located_vr hi))

theorem taken_vr {i : Nat} {e : Expr} (hi : i < 32) : Taken P s (Layout.vr · i) e .v128 := by
  simp only [Layout.vr, hi, if_true]
  exact taken_plain ⟨by simp, rfl, rfl⟩ (show i + 32 < 64 by omega) rfl

theorem putVr_emits {i : Nat} {e e' : Expr} (hi : i < 32) (he : Paired P s e e' .v128) :
    Emits P s pending (putVr i e) (putVr i e') :=
  read_gives.give (putPlace_emits (taken_vr hi) he)

theorem fpr_place {i : Nat} (hi : i < 32) :
    ∃ p, Layout.fpr P.env.arch i P.env.host = .ok p ∧ p.ty = .f64 := by
  have hi' : i < 64 := by omega
  simp [Layout.fpr, Layout.offset, hi, hi', Except.map]

theorem getFpr_reads {i : Nat} (hi : i < 32) : Reads P s pending (getFpr i) (getFpr i) .f64 :=
  have ⟨p, hp, hty⟩ := fpr_place hi
  have hlocated : Located P (Layout.fpr · i P.env.host) .f64 := ⟨p, hp, hty, .half i hp⟩
  read_gives.give (getPlace_reads hlocated)

theorem putFpr_emits {i : Nat} {e e' : Expr} (hi : i < 32) (he : Paired P s e e' .f64) :
    Emits P s pending (putFpr i e) (putFpr i e') :=
  have ⟨p, hp, hty⟩ := fpr_place hi
  have htaken : Taken P s (Layout.fpr · i P.env.host) e .f64 :=
    ⟨p, hp, hty, .half i hp, fun _ => Stmt.offFields_half hp, Stmt.keeps_half hp⟩
  read_gives.give (putPlace_emits htaken he)

theorem getFprBits_reads {i : Nat} (hi : i < 32) :
    Reads P s pending (getFprBits i) (getFprBits i) .i64 :=
  (getFpr_reads hi).read fun _ _ h => .pure (.un rfl h)

theorem putFprBits_emits {i : Nat} {e e' : Expr} (hi : i < 32) (he : Paired P s e e' .i64) :
    Emits P s pending (putFprBits i e) (putFprBits i e') :=
  putFpr_emits hi (.un rfl he)

/-! ## Condition register -/

theorem getByte32_reads {slot : Slot} (hslot : slot ≠ .special .cia) (hrange : slot.InRange)
    (hty : slot.ty P.env.arch = .i8) :
    Reads P s pending (getByte32 slot) (getByte32 slot) .i32 :=
  (getSlot_reads hslot hrange hty).read fun _ _ h => .pure (.un rfl h)

theorem getByte32_flag {slot : Slot} {mask : Nat} (hflag : slot.flagBits? = some mask)
    (hrange : slot.InRange) :
    Runs P s pending (getByte32 slot) (getByte32 slot) (Still P s fun e e' =>
      Paired P s e e' .i32 ∧ Bounded P s e mask) :=
  (getFlag_reads hflag hrange).read fun _ _ h => .pure ⟨.un rfl h.1, .cast rfl h.2⟩

theorem crBit_eq {bi : Nat} (hbi : bi < 32) :
    Layout.crBit bi = .ok ⟨bi / 4, 3 - bi % 4⟩ := by simp [Layout.crBit, hbi]

/-- A condition bit lies in a flag byte of its field. -/
theorem crBit_inRange {bi : Nat} (hbi : bi < 32) :
    (Layout.CrBit.slot ⟨bi / 4, 3 - bi % 4⟩).InRange := by
  unfold Layout.CrBit.slot
  split <;> exact show bi / 4 < 8 by omega

theorem getCrBit_reads {bi : Nat} (hbi : bi < 32) :
    Reads P s pending (getCrBit bi) (getCrBit bi) .i32 := by
  unfold getCrBit
  rw [crBit_eq hbi]
  refine .give (ofExcept_gives rfl rfl) ?_
  refine (getByte32_reads ?_ (crBit_inRange hbi) ?_).read fun _ _ h => ?_
  · unfold Layout.CrBit.slot
    split <;> simp
  · unfold Layout.CrBit.slot
    split <;> rfl
  · split
    · exact .pure (.bin rfl h .u32)
    · exact .pure (.bin rfl (.bin rfl h .u8) .u32)

/-- A bit above the lowest, among the other bits of its byte. -/
theorem merged_bounded {bit : Nat} (hbit : bit ≠ 0) (hle : bit ≤ 3) {old kept e : Expr}
    (hold : Bounded P s old 0xE) :
    Bounded P s (.un (.cast .low32to8) (.bin .or32 (.bin .and32 old kept)
      (.bin .shl32 (.bin .and32 e (.u32 1)) (.u8 (.ofNat 8 bit))))) 0xE := by
  obtain rfl | rfl | rfl : bit = 1 ∨ bit = 2 ∨ bit = 3 := by omega
  all_goals
    exact .cast rfl (.weaken (.or (.andLeft hold) (.shl _ (by decide) (.andRight (.u32 1))))
      (by decide))

theorem putCrBit_emits {bi : Nat} {e e' : Expr} (hw : P.word.IsBitLogic) (hbi : bi < 32)
    (he : Paired P s e e' .i32) : Emits P s pending (putCrBit bi e) (putCrBit bi e') := by
  have hrange : bi / 4 < 8 := by omega
  unfold putCrBit Layout.CrBit.slot
  rw [crBit_eq hbi]
  refine .give (ofExcept_gives rfl rfl) ?_
  split
  · exact putFlag_emits rfl hrange (fun _ => hw) nofun (.un rfl (.bin rfl he .u32))
      (.cast rfl (.andRight (.u32 1)))
  next hbit =>
    have hle : 3 - bi % 4 ≤ 3 := Nat.sub_le 3 _
    refine .read (getByte32_flag rfl hrange) fun _ _ ⟨h, hold⟩ => ?_
    exact putFlag_emits rfl hrange (fun _ => hw) nofun
      (.un rfl (.bin rfl (.bin rfl h .u32) (.bin rfl (.bin rfl he .u32) .u8)))
      (merged_bounded hbit hle hold)

theorem getCrField_reads {f : Nat} (hf : f < 8) :
    Reads P s pending (getCrField f) (getCrField f) .i32 := by
  unfold getCrField
  refine .read (getByte32_reads (by simp) hf rfl) fun _ _ hhi => ?_
  refine .read (getByte32_reads (by simp) hf rfl) fun _ _ hlo => ?_
  exact .pure (.bin rfl (.bin rfl hhi .u32) (.bin rfl hlo .u32))

theorem exec_putSlot {env : Env} {p : Progress} {slot : Slot} {q : Layout.Place} {e : Expr}
    (hq : Layout.locate env.layout slot = .ok q) (he : p.stage.check e = .ok q.ty) :
    exec env p (putSlot slot e) = (.ok (), { p with
      stage := p.stage.push (.put q.offset e) }) := by
  rw [putSlot, exec_bind]
  change exec env p (putPlace (Layout.locate env.layout slot) e) = _
  rw [hq, putPlace, exec_bind, exec_ofExcept]
  exact exec_onStage (by simp [Stage.put, he])

theorem exec_putField {env : Env} {p : Progress} {f : Nat} {q q' : Layout.Place} {a b : Expr}
    {x : Lift Expr} (hx : ∀ p, exec env p x = (.ok b, p))
    (hq : Layout.locate env.layout (.cr321 f) = .ok q)
    (hq' : Layout.locate env.layout (.cr0 f) = .ok q') (ha : p.stage.check a = .ok q.ty)
    (hb : p.stage.check b = .ok q'.ty) :
    exec env p (putCr321 f a >>= fun _ => x >>= putCr0 f) = (.ok (), { p with
      stage := (p.stage.push (.put q.offset a)).push (.put q'.offset b) }) := by
  rw [exec_bind, putCr321, exec_putSlot hq ha]
  simp only [exec_bind, hx]
  -- A write leaves alone what the check looks at.
  exact exec_putSlot hq' hb

/-- The two bytes of a condition field, the second of which may be read in between. -/
theorem putField_emits {f : Nat} {a a' b b' : Expr} {x x' : Lift Expr} (hf : f < 8)
    (ha : Paired P s a a' .i8) (hmask : Bounded P s a 0xE) (hb : Paired P s b b' .i8)
    (hmask' : Bounded P s b 1) (hx : ∀ p, exec P.alone p x = (.ok b, p))
    (hx' : ∀ p, exec P.env p x' = (.ok b', p)) :
    Emits P s pending (putCr321 f a >>= fun _ => x >>= putCr0 f)
      (putCr321 f a' >>= fun _ => x' >>= putCr0 f) := by
  intro hsound p p' hp
  obtain ⟨hleft, hright⟩ := ha.check_eq hp.outer hsound
  obtain ⟨hleft', hright'⟩ := hb.check_eq hp.outer hsound
  rw [← hp.left] at hleft hleft'
  rw [← hp.right] at hright hright'
  obtain ⟨o, ho⟩ : ∃ o, Layout.locate P.env.arch (.cr321 f) = .ok ⟨o, .i8⟩ :=
    Layout.locate_eq P.env.arch hf
  obtain ⟨o', ho'⟩ : ∃ o, Layout.locate P.env.arch (.cr0 f) = .ok ⟨o, .i8⟩ :=
    Layout.locate_eq P.env.arch hf
  have hlayout : Layout.locate P.env.layout (.cr321 f) = .ok ⟨o, .i8⟩ := P.layout_eq ▸ ho
  have hlayout' : Layout.locate P.env.layout (.cr0 f) = .ok ⟨o', .i8⟩ := P.layout_eq ▸ ho'
  have hfits : Fits P.env s.types s.stmts.toList (.put o a) :=
    .put ⟨o, .i8⟩ a (.slot _ (by simp) ho fun _ h => Option.some.inj h ▸ hmask) ha.hasTy
  have hfits' : Fits P.env s.types (s.stmts.toList ++ [.put o a]) (.put o' b) := by
    refine .put ⟨o', .i8⟩ b (.slot _ (by simp) ho' fun _ h => ?_) ?_
    · exact Option.some.inj h ▸ hmask'.mono (List.prefix_append _ _)
    · refine hb.hasTy.mono fun t τ ht => ?_
      obtain ⟨hmem, hty⟩ := scopeOf_eq_some.mp ht
      exact scopeOf_eq_some.mpr ⟨by simp [hmem], hty⟩
  rw [exec_putField hx hlayout hlayout' hleft hleft',
    exec_putField hx' hlayout hlayout' hright hright', hp.left, hp.right]
  refine .both ⟨(s.push (.put o a)).push (.put o' b), ⟨hp.outer, rfl, hp.left_next, ?_,
    hp.right_next⟩, hsound.pushField ho ho' hfits hfits', (Stage.Grows.push _).trans (.push _),
    trivial⟩
  rw [← Stage.on_push, ← Stage.on_push, Stmt.shift, Stmt.shift, ← ha.shift_eq, ← hb.shift_eq]

theorem putFields_emits {f : Nat} {a a' b b' : Expr} (hf : f < 8) (ha : Paired P s a a' .i8)
    (hmask : Bounded P s a 0xE) (hb : Paired P s b b' .i8) (hmask' : Bounded P s b 1) :
    Emits P s pending (putCr321 f a >>= fun _ => putCr0 f b)
      (putCr321 f a' >>= fun _ => putCr0 f b') := by
  have h : Emits P s pending (putCr321 f a >>= fun _ => pure b >>= putCr0 f)
      (putCr321 f a' >>= fun _ => pure b' >>= putCr0 f) :=
    putField_emits hf ha hmask hb hmask' (fun _ => rfl) fun _ => rfl
  simpa only [pure_bind] using h

theorem putCrField_emits {f : Nat} {e e' : Expr} (hf : f < 8) (he : Paired P s e e' .i32) :
    Emits P s pending (putCrField f e) (putCrField f e') := by
  unfold putCrField
  refine .bind (bind_computes he) fun _ _ s₁ _ hv => ?_
  exact (putFields_emits hf (.un rfl (.bin rfl hv .u32)) (.cast rfl (.andRight (.u32 0xE)))
    (.un rfl (.bin rfl hv .u32)) (.cast rfl (.andRight (.u32 1)))).last

/-! ## Fixed-point exception register -/

theorem getSpecial_reads {x : SpecialSlot} {τ : Ty} (hx : x ≠ .cia) (hty : x.ty P.env.arch = τ) :
    Reads P s pending (getSlot x) (getSlot x) τ :=
  getSlot_reads (by simpa using hx) trivial hty

/-- A special slot is read as it stands. -/
theorem getSlot_gives {slot : Slot} {p : Layout.Place}
    (hp : Layout.locate P.env.arch slot = .ok p) :
    Gives P s pending (getSlot slot) (getSlot slot) (.get p.offset p.ty) (.get p.offset p.ty) := by
  rw [← P.layout_eq] at hp
  exact read_gives.give (.give (ofExcept_gives hp hp) (.pure ⟨rfl, rfl⟩))

theorem getSpecial_gives {x : SpecialSlot} :
    Gives P s pending (getSlot x) (getSlot x)
      (.get (Layout.specialOffset P.env.arch x) (x.ty P.env.arch))
      (.get (Layout.specialOffset P.env.arch x) (x.ty P.env.arch)) :=
  getSlot_gives (p := ⟨Layout.specialOffset P.env.arch x, x.ty P.env.arch⟩) rfl

theorem get_paired {x : SpecialSlot} {τ : Ty} (hx : x ≠ .cia) (hty : x.ty P.env.arch = τ) :
    Paired P s (.get (Layout.specialOffset P.env.arch x) τ)
      (.get (Layout.specialOffset P.env.arch x) τ) τ :=
  ⟨rfl, rfl, .slot x (by simpa using hx) (hty ▸ rfl)⟩

theorem putSpecial_emits {x : SpecialSlot} {τ : Ty} {e e' : Expr} (hx : (x : Slot).IsPlain)
    (hty : x.ty P.env.arch = τ) (he : Paired P s e e' τ) :
    Emits P s pending (putSlot x e) (putSlot x e') :=
  putSlot_emits hx trivial hty he

/-- So are the bits of the vector status. -/
theorem putVscr_emits {e e' : Expr} (he : Paired P s e e' .i32)
    (hkeeps : ¬P.word.Resets SpecialSlot.vscr →
      (Expr.get (Layout.specialOffset P.env.arch .vscr) .i32).CarriedBy 0xFFFFFFFF e) :
    Emits P s pending (putSlot SpecialSlot.vscr e) (putSlot SpecialSlot.vscr e') := by
  have htaken : Taken P s (Layout.locate · (.special .vscr)) e .i32 := by
    refine taken_slot (by simp) trivial rfl nofun nofun fun mask p hmask hp hw => ?_
    obtain rfl : 0xFFFFFFFF = mask := Option.some.inj hmask
    obtain rfl := Except.ok.inj hp
    exact hkeeps hw
  exact read_gives.give (putPlace_emits htaken he)

theorem getMasked_bounded {x : SpecialSlot} {mask : BitVec 8} (hx : x ≠ .cia)
    (hty : x.ty P.env.arch = .i8) :
    Runs P s pending (getMasked x mask) (getMasked x mask) (Still P s fun e e' =>
      Paired P s e e' .i8 ∧ Bounded P s e mask.toNat) :=
  (getSpecial_reads hx hty).read fun _ _ h => .pure ⟨.bin rfl h .u8, .andRight (.u8 mask)⟩

theorem getMasked_reads {x : SpecialSlot} {mask : BitVec 8} (hx : x ≠ .cia)
    (hty : x.ty P.env.arch = .i8) :
    Reads P s pending (getMasked x mask) (getMasked x mask) .i8 :=
  (getSpecial_reads hx hty).read fun _ _ h => .pure (.bin rfl h .u8)

theorem putMasked_emits {x : SpecialSlot} {mask : BitVec 8} {e e' : Expr}
    (hx : (x : Slot).flagBits? = some mask.toNat) (hsticky : (x : Slot).stickyBits? = none)
    (he : Paired P s e e' .i8) : Emits P s pending (putMasked x mask e) (putMasked x mask e') := by
  refine putFlag_emits hx trivial (by simp [Slot.isField]) (fun mask' p hmask => ?_)
    (.bin rfl he .u8) (.andRight (.u8 mask))
  rw [hsticky] at hmask
  contradiction

theorem getXerSo_reads : Reads P s pending getXerSo getXerSo .i8 :=
  getMasked_reads (by decide) rfl

theorem getXerOv_reads : Reads P s pending getXerOv getXerOv .i8 :=
  getMasked_reads (by decide) rfl

theorem getXerCa_reads : Reads P s pending getXerCa getXerCa .i8 :=
  getMasked_reads (by decide) rfl

theorem getXerBc_reads : Reads P s pending getXerBc getXerBc .i8 :=
  getMasked_reads (by decide) rfl

section

variable {e e' : Expr}

/-- The summary bit is kept by what is written over it, unless the word resets it. -/
theorem putXerSo_emits (he : Paired P s e e' .i8)
    (hkeeps : ¬P.word.Resets SpecialSlot.xerSo →
      (Expr.get (Layout.specialOffset P.env.arch .xerSo) .i8).CarriedBy 1 e) :
    Emits P s pending (putXerSo e) (putXerSo e') := by
  refine putFlag_emits rfl trivial (by simp [Slot.isField]) (fun mask p hmask hp hw => ?_)
    (.bin rfl he .u8) (.andRight (.u8 1))
  obtain rfl : 1 = mask := Option.some.inj hmask
  obtain rfl := Except.ok.inj hp
  exact .and 1 (by decide) (hkeeps hw)

theorem putXerOv_emits (he : Paired P s e e' .i8) : Emits P s pending (putXerOv e) (putXerOv e') :=
  putMasked_emits rfl rfl he

theorem putXerCa_emits (he : Paired P s e e' .i8) : Emits P s pending (putXerCa e) (putXerCa e') :=
  putMasked_emits rfl rfl he

theorem putXerBc_emits (he : Paired P s e e' .i8) : Emits P s pending (putXerBc e) (putXerBc e') :=
  putMasked_emits rfl rfl he

theorem putXer_emits (hw : P.word.Resets SpecialSlot.xerSo) (he : Paired P s e e' .i32) :
    Emits P s pending (putXer e) (putXer e') := by
  unfold putXer
  refine .bind (bind_computes he) fun _ _ s₁ _ hv => ?_
  refine .seq (putXerSo_emits (.un rfl (.bin rfl hv .u8)) fun h => absurd hw h) fun _ _ => ?_
  refine .seq (putXerOv_emits (.un rfl (.bin rfl hv.up .u8))) fun _ _ => ?_
  refine .seq (putXerCa_emits (.un rfl (.bin rfl hv.up .u8))) fun _ _ => ?_
  exact (putXerBc_emits (.un rfl hv.up)).last

end

theorem getXer_reads : Reads P s pending getXer getXer .i32 := by
  unfold getXer
  refine .read getXerSo_reads fun _ _ hso => ?_
  refine .read getXerOv_reads fun _ _ hov => ?_
  refine .read getXerCa_reads fun _ _ hca => ?_
  refine .read getXerBc_reads fun _ _ hbc => ?_
  exact .pure (.bin rfl (.bin rfl (.bin rfl (.un rfl hso) .u8) (.bin rfl (.un rfl hov) .u8))
    (.bin rfl (.bin rfl (.un rfl hca) .u8) (.un rfl hbc)))

/-! ## Condition and status registers as a whole -/

theorem getCr_reads : Reads P s pending getCr getCr .i32 := by
  unfold getCr
  refine .read (getCrField_reads (by omega)) fun _ _ hfirst => ?_
  refine foldlM_reads (.bin rfl hfirst .u8) fun f hf _ _ hacc => ?_
  have hf : f < 8 := by
    simp only [List.mem_cons, List.not_mem_nil, or_false] at hf
    omega
  exact .read (getCrField_reads hf) fun _ _ h => .pure (.bin rfl hacc (.bin rfl h .u8))

theorem putCrMasked_emits {e e' : Expr} {mask : BitVec 64} (he : Paired P s e e' .i32) :
    Emits P s pending (putCrMasked e mask) (putCrMasked e' mask) := by
  unfold putCrMasked
  refine .bind (bind_computes he) fun _ _ s₁ _ hv => ?_
  refine (forM_emits fun f hf s₂ _ => ?_).last
  split
  · exact putCrField_emits (List.mem_range.mp hf) (.bin rfl (.bin rfl hv.up .u8) .u32)
  · exact .done trivial

theorem getFpscr_reads : Reads P s pending getFpscr getFpscr .i64 := by
  unfold getFpscr
  refine .read (getMasked_reads (by decide) rfl) fun _ _ hrn => ?_
  refine .read (getMasked_reads (by decide) rfl) fun _ _ hcls => ?_
  refine .read (getMasked_reads (by decide) rfl) fun _ _ hdrn => ?_
  exact .pure (.bin rfl (.bin rfl (.un rfl hrn) (.bin rfl (.un rfl hcls) .u8))
    (.bin rfl (.un rfl hdrn) .u8))

theorem putFpscrMasked_emits {e e' : Expr} {mask : BitVec 64} (he : Paired P s e e' .i64) :
    Emits P s pending (putFpscrMasked e mask) (putFpscrMasked e' mask) := by
  unfold putFpscrMasked
  refine .bind (bind_computes he) fun _ _ s₁ _ hv => ?_
  refine .when (fun _ => putMasked_emits rfl rfl (.un rfl hv)) fun _ _ => ?_
  refine .when (fun _ => putMasked_emits rfl rfl (.un rfl (.bin rfl hv.up .u8)))
    fun _ _ => ?_
  split
  · exact (putMasked_emits rfl rfl (.un rfl (.bin rfl hv.up .u8))).last
  · exact .done trivial

theorem roundingOf_paired {e e' : Expr} (he : Paired P s e e' .i32) :
    Paired P s (roundingOf e) (roundingOf e') .i32 :=
  .bin rfl he (.bin rfl (.bin rfl he .u8) .u32)

theorem rounding_reads : Reads P s pending rounding rounding .i32 := by
  unfold rounding
  refine .read (getByte32_reads (by simp) trivial rfl) fun _ _ h => ?_
  exact .pure (roundingOf_paired (.bin rfl h .u32))

theorem decimalRounding_reads : Reads P s pending decimalRounding decimalRounding .i32 := by
  unfold decimalRounding
  refine .read (getByte32_reads (by simp) trivial rfl) fun _ _ h => ?_
  exact .pure (roundingOf_paired (.bin rfl h .u32))

end Lift

end PowerLift
