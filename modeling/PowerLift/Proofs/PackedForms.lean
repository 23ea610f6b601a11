import PowerLift.Proofs.PackedValues
import PowerLift.Proofs.SaturatingForms
import PowerLift.Proofs.StatusMoves

/-!
# Instructions on packed digits

The words that convert between packed digits and long decimals do so to floating-point registers.
Run one behind the other, they undo each other as far as packed digits can hold the value.
-/

namespace PowerLift

open Decimal (Format Datum)
open Declet (nibble)

namespace DigitOp

def xo10 : DigitOp → Nat
  | unpack _ => 322
  | pack _ => 834

/-- Bits of a word that have to be zero. -/
def Reserved (w : Insn) : DigitOp → Prop
  | unpack _ => w.slice 13 3 ≠ 0
  | pack _ => w.slice 12 4 ≠ 0

/-- The control bits of a word say which conversion it is. -/
def Controls (w : Insn) : DigitOp → Prop
  | unpack control => w.slice 11 2 = control
  | pack signed => (w.slice 11 1 == 1) = signed

instance (w : Insn) : (op : DigitOp) → Decidable (op.Reserved w)
  | unpack _ => inferInstanceAs (Decidable (_ ≠ _))
  | pack _ => inferInstanceAs (Decidable (_ ≠ _))

instance (w : Insn) : (op : DigitOp) → Decidable (op.Controls w)
  | unpack _ => inferInstanceAs (Decidable (_ = _))
  | pack _ => inferInstanceAs (Decidable (_ = _))

theorem xo10_mod (op : DigitOp) : op.xo10 % 32 = 2 ∧ op.xo10 % 512 = 322 := by
  cases op <;> simp [xo10]

end DigitOp

/-- A word of a conversion. -/
structure Insn.DigitForm (w : Insn) (op : DigitOp) : Prop where
  opcode : w.opcode = 59
  xo10 : w.xo10 = op.xo10
  control : op.Controls w

theorem Insn.DigitForm.xo5 {w : Insn} {op : DigitOp} (hform : w.DigitForm op) : w.xo5 = 2 := by
  rw [w.xo5_eq, hform.xo10]
  exact op.xo10_mod.1

theorem Insn.DigitForm.xo9 {w : Insn} {op : DigitOp} (hform : w.DigitForm op) : w.xo9 = 322 := by
  rw [w.xo9_eq, hform.xo10]
  exact op.xo10_mod.2

/-! ## Steps -/

variable {M : Type} {I : Interp M} {env : Env} {w : Insn} {c : Point M}

/-- Arithmetic of integers, numbers taken for their bits, and the routines that convert digits. -/
structure Interp.Packing (I : Interp M) : Prop extends I.Integral, I.Patterns where
  toPacked (x : BitVec 64) : I.helper .dpdToBcd .i64 [⟨.i64, x⟩] = Declet.toPacked x
  ofPacked (x : BitVec 64) : I.helper .bcdToDpd .i64 [⟨.i64, x⟩] = Declet.ofPacked x

theorem Point.Knows.call {S : GuestState → Prop} {a : Expr} {x : BitVec 64} {helper : Helper}
    {z : BitVec 64} (ha : c.Knows I S a ⟨.i64, x⟩) (hz : I.helper helper .i64 [⟨.i64, x⟩] = z) :
    c.Knows I S (.call helper .i64 [a]) ⟨.i64, z⟩ where
  check := by
    have hcheck := Stage.check_eq_ok.mp ha.check
    refine Stage.check_eq_ok.mpr ⟨fun t ht => hcheck.1 t ?_, ?_⟩
    · simpa only [Expr.temps, Expr.tempsOf, List.append_nil] using ht
    · simp only [Expr.check, Expr.checkEach, hcheck.2, ok_bind]
      rfl
  eval m hm hS := by
    simp only [Expr.eval, Expr.evalAll, ha.eval m hm hS, hz]

namespace DecimalFloat

open Point Lift DigitOp
open PowerLift.Expr (un bin)

variable {φ : Prop} {Q : Continuation → Flow M → Prop}

/-- The code that finds the first digit. -/
theorem firstDigit_comes (hI : I.Integral) {bits : Expr} {d : BitVec 64}
    (hbits : ∀ {S}, c.Knows I S bits ⟨.i64, d⟩) {f : Expr → Lift Unit}
    (hf : ∀ t c' [Since c c'], c'.state = c.state → c'.memory = c.memory →
      (∀ {S}, c'.Knows I S t ⟨.i64, leading (d >>> 58 &&& 0x1F)⟩) → Comes env I c' (f t) φ Q) :
    Comes env I c (DecimalFloat.firstDigit bits >>= f) φ Q := by
  unfold DecimalFloat.firstDigit
  simp only [bind_assoc]
  have hshift {S : GuestState → Prop} :
      c.Knows I S (bin .shr64 bits (.u8 58)) ⟨.i64, (d >>> 58 : BitVec 64)⟩ :=
    hbits.bin (.const (.u8 58)) rfl (hI.shr .w64 d 58 (by decide))
  have hcombo {S : GuestState → Prop} : c.Knows I S
      (bin .and64 (bin .shr64 bits (.u8 58)) (.u64 0x1F)) ⟨.i64, d >>> 58 &&& 0x1F#64⟩ :=
    hshift.bin (.const (.u64 0x1F)) rfl (hI.and .w64 _ 0x1F)
  generalize d >>> 58 &&& 0x1F#64 = x at hf hcombo
  refine .bind hcombo.always fun t c₁ _ hstate₁ hmemory₁ ht => ?_
  have hlow (k : BitVec 64) {S : GuestState → Prop} :
      c₁.Knows I S (bin .and64 t (.u64 k)) ⟨.i64, x &&& k⟩ :=
    ht.bin (.const (.u64 k)) rfl (hI.and .w64 x k)
  have hhigh {S : GuestState → Prop} :
      c₁.Knows I S (bin .shr64 t (.u8 3)) ⟨.i64, (x >>> 3 : BitVec 64)⟩ :=
    ht.bin (.const (.u8 3)) rfl (hI.shr .w64 x 3 (by decide))
  have hlarge {S : GuestState → Prop} :
      c₁.Knows I S (bin .cmpEQ64 (bin .shr64 t (.u8 3)) (.u64 3)) ⟨.i1, .ofBool (x >>> 3 == 3#64)⟩ :=
    hhigh.bin (.const (.u64 3)) rfl (hI.cmpEQ .w64 (x >>> 3) 3#64)
  have height {S : GuestState → Prop} :
      c₁.Knows I S (bin .or64 (.u64 8) (bin .and64 t (.u64 1))) ⟨.i64, 8#64 ||| (x &&& 1#64)⟩ :=
    (Knows.const (.u64 8)).bin (hlow 1) rfl (hI.or .w64 8 _)
  have hdigit {S : GuestState → Prop} : c₁.Knows I S
      (.ite (bin .cmpEQ64 (bin .shr64 t (.u8 3)) (.u64 3))
        (bin .or64 (.u64 8) (bin .and64 t (.u64 1))) (bin .and64 t (.u64 7)))
      ⟨.i64, leading x⟩ :=
    .ite hlarge (height (S := S)).check (hlow 7 (S := S)).check
      (fun h => height.congr (congrArg (Value.mk .i64) (if_pos h).symm))
      (fun h => (hlow 7).congr (congrArg (Value.mk .i64) (if_neg (Bool.eq_false_iff.mp h)).symm))
  refine .bind hdigit.always fun t' c₂ _ hstate₂ hmemory₂ ht' => ?_
  have : Since c c₂ := Since.trans c₁
  exact hf t' c₂ (hstate₂.trans hstate₁) (hmemory₂.trans hmemory₁) ht'

/-- How an instruction is left that gives bits to a floating-point register. -/
def givenBits (env : Env) (I : Interp M) (w : Insn) (x : BitVec 64) (m : Machine M) : Left M :=
  ⟨env.nia, .boring, m.memory,
    (m.state.withFpr env.arch env.host I.order w.rd x).recorded env.arch w⟩

theorem givenBits_congr {c' : Point M} (x : BitVec 64) (hstate : c'.state = c.state)
    (hmemory : c'.memory = c.memory) :
    givenBits env I w x c'.machine = givenBits env I w x c.machine := by
  change Left.mk _ _ c'.memory ((c'.state.withFpr _ _ _ _ _).recorded _ _) = _
  rw [hmemory, hstate]
  rfl

/-- The start of the conversions. -/
theorem source_comes (hI : I.Patterns) (hlayout : env.layout = env.arch) {field : Nat}
    {what line : String} {f : Expr → Lift Unit}
    (hf : ∀ bits c' [Since c c'], c'.state = c.state → c'.memory = c.memory →
      (∀ {S}, c'.Knows I S bits ⟨.i64, c.state.fpr env.arch env.host I.order w.rb⟩) →
      Comes env I c' (f bits) False Q) :
    Comes env I c (reservedZero w field what >>= fun _ => listed line >>= fun _ =>
      getFprBits w.rb >>= fun e => Lift.bind e >>= f) (field ≠ 0) Q := by
  refine (Comes.guard (reservedZero_refuses w _ _) fun _ => .noted fun c₁ _ hstate₁ hmemory₁ =>
    ?_).congr (or_iff_left id)
  obtain ⟨e, hexec, he⟩ := getFprBits_knows hI hlayout w.rb_lt c₁
  rw [hstate₁] at he
  refine .give hexec (.bind (he.has hstate₁) fun bits c₂ _ hstate₂ hmemory₂ hbits => ?_)
  have : Since c c₂ := Since.trans c₁
  exact hf bits c₂ (hstate₂.trans hstate₁) (hmemory₂.trans hmemory₁) hbits

/-- The end of the conversions, behind which nothing but the result has changed. -/
theorem finish_comes (hI : I.Patterns) (hlayout : env.layout = env.arch)
    (hnext : c.progress.next = .continue) {c' : Point M} [Since c c'] (hstate : c'.state = c.state)
    (hmemory : c'.memory = c.memory) {e : Expr} {x : BitVec 64}
    (he : ∀ {S}, c'.Knows I S e ⟨.i64, x⟩) :
    Comes env I c' (putFprBits w.rd e >>= fun _ => if w.record = true then recordFloat else pure ())
      False fun next flow =>
        next = .continue ∧ env.leave I next flow = givenBits env I w x c.machine := by
  refine .putFprBits hI hlayout w.rd_lt he.always fun c₁ _ hstate₁ hmemory₁ => ?_
  have hleft : (⟨env.nia, .boring, c₁.memory, c₁.state.recorded env.arch w⟩ : Left M) =
      givenBits env I w x c.machine := by
    rw [← givenBits_congr x hstate hmemory, hmemory₁, hstate₁]
    rfl
  have hnext' : c'.progress.next = .continue := Since.next_eq hnext
  exact FloatingPoint.record_comes hlayout (Since.next_eq hnext') hleft

/-! ## Digits from declets -/

/-- The code that tells the sign digit. -/
theorem signCode_knows (hI : I.Packing) {S : GuestState → Prop} {bits : Expr} {d : BitVec 64}
    (hbits : c.Knows I S bits ⟨.i64, d⟩) (control : Nat) :
    c.Knows I S (.ite (bin (.cmpLT .w64 .signed) bits (.u64 0)) (.u64 0xD)
      (.u64 (if control = 2 then 0xC else 0xF))) ⟨.i64, signCode control d⟩ := by
  have hless : c.Knows I S (bin (.cmpLT .w64 .signed) bits (.u64 0))
      ⟨.i1, .ofBool (decide (d.toInt < 0))⟩ :=
    hbits.bin (.const (.u64 0)) rfl (hI.cmpLT .w64 .signed d 0)
  refine .ite hless rfl rfl (fun h => ?_) fun h => ?_
  · rw [signCode, if_pos (of_decide_eq_true h)]
    exact .const (.u64 0xD)
  · rw [signCode, if_neg (of_decide_eq_false h)]
    exact .const (.u64 _)

/-- The code that spells a long decimal in packed digits. -/
theorem unpack_comes (hI : I.Packing) (hlayout : env.layout = env.arch)
    (hnext : c.progress.next = .continue) :
    Comes env I c
      (toPacked w >>= fun _ => if w.record = true then recordFloat else pure ())
      (w.slice 13 3 ≠ 0) fun next flow => next = .continue ∧ env.leave I next flow =
        givenBits env I w ((unpack (w.slice 11 2)).value
          (c.state.fpr env.arch env.host I.order w.rb)) c.machine := by
  unfold toPacked
  simp only [bind_assoc]
  refine source_comes hI.toPatterns hlayout fun bits c₁ _ hstate₁ hmemory₁ hbits => ?_
  generalize c.state.fpr env.arch env.host I.order w.rb = d at hbits ⊢
  have hdeclets {S : GuestState → Prop} : c₁.Knows I S
      (bin .and64 bits (.u64 0x3FFFFFFFFFFFF)) ⟨.i64, (d &&& 0x3FFFFFFFFFFFF : BitVec 64)⟩ :=
    hbits.bin (.const (.u64 0x3FFFFFFFFFFFF)) rfl (hI.and .w64 d 0x3FFFFFFFFFFFF)
  refine .bind (hdeclets.call (hI.toPacked _)).always fun t c₂ _ hstate₂ hmemory₂ ht => ?_
  have : Since c c₂ := Since.trans c₁
  have hstate : c₂.state = c.state := hstate₂.trans hstate₁
  have hmemory : c₂.memory = c.memory := hmemory₂.trans hmemory₁
  by_cases hsp : w.slice 11 2 < 2
  · rw [if_pos hsp, show (unpack (w.slice 11 2)).value d =
      leading (d >>> 58 &&& 0x1F) <<< 60 ||| DigitOp.packed d from if_pos hsp, bind_assoc]
    refine firstDigit_comes hI.toIntegral hbits.since fun t' c₃ _ hstate₃ hmemory₃ ht' => ?_
    have : Since c c₃ := Since.trans c₂
    have hhigh {S : GuestState → Prop} :=
      (ht' (S := S)).bin (.const (.u8 60)) rfl (hI.shl .w64 _ 60 (by decide))
    have hlow {S : GuestState → Prop} : c₃.Knows I S t ⟨.i64, DigitOp.packed d⟩ := ht.since
    exact finish_comes hI.toPatterns hlayout hnext (hstate₃.trans hstate) (hmemory₃.trans hmemory)
      (hhigh.bin hlow rfl (hI.or .w64 _ _))
  · rw [if_neg hsp, show (unpack (w.slice 11 2)).value d =
      DigitOp.packed d <<< 4 ||| signCode (w.slice 11 2) d from if_neg hsp]
    have hhigh {S : GuestState → Prop} :=
      (ht (S := S)).bin (.const (.u8 4)) rfl (hI.shl .w64 _ 4 (by decide))
    exact finish_comes hI.toPatterns hlayout hnext hstate hmemory
      (hhigh.bin (signCode_knows hI hbits.since _) rfl (hI.or .w64 _ _))

/-! ## Declets from digits -/

/-- The code that tells whether a sign digit stands for a minus. -/
theorem minus_knows (hI : I.Packing) {S : GuestState → Prop} {code : Expr} {b : BitVec 64}
    (hcode : c.Knows I S code ⟨.i64, (b &&& 0xF : BitVec 64)⟩) :
    c.Knows I S (bin .or1 (bin .cmpEQ64 code (.u64 0xB)) (bin .cmpEQ64 code (.u64 0xD)))
      ⟨.i1, .ofBool (minus b)⟩ := by
  have hequal (k : BitVec 64) :
      c.Knows I S (bin .cmpEQ64 code (.u64 k)) ⟨.i1, .ofBool (b &&& 0xF == k)⟩ :=
    hcode.bin (.const (.u64 k)) rfl (hI.cmpEQ .w64 _ k)
  exact (hequal 0xB).bin (hequal 0xD) rfl (hI.or1 _ _)

/-- The code that makes the combination of a first digit. -/
theorem combo_knows (hI : I.Packing) {S : GuestState → Prop} {first : Expr} {x : BitVec 64}
    (hfirst : c.Knows I S first ⟨.i64, x⟩) :
    c.Knows I S (.ite (bin (.cmpLT .w64 .unsigned) first (.u64 8)) (bin .or64 (.u64 0x8) first)
      (bin .or64 (.u64 0x1A) (bin .and64 first (.u64 1)))) ⟨.i64, combo x⟩ := by
  have hless : c.Knows I S (bin (.cmpLT .w64 .unsigned) first (.u64 8))
      ⟨.i1, .ofBool (decide ((x.toNat : Int) < 8))⟩ :=
    hfirst.bin (.const (.u64 8)) rfl (hI.cmpLT .w64 .unsigned x 8)
  have hsmall := (Knows.const (.u64 8)).bin hfirst rfl (hI.or .w64 8 x)
  have hlarge := (Knows.const (.u64 0x1A)).bin
    (hfirst.bin (.const (.u64 1)) rfl (hI.and .w64 x 1)) rfl (hI.or .w64 0x1A _)
  refine .ite hless hsmall.check hlarge.check (fun h => ?_) fun h => ?_
  · rw [combo, if_pos (of_decide_eq_true h)]
    exact hsmall
  · rw [combo, if_neg (of_decide_eq_false h)]
    exact hlarge

/-- The end of the code that makes a long decimal of its parts. -/
theorem assembled_knows (hI : I.Packing) {S : GuestState → Prop} {sign combo digits : Expr}
    {s k x : BitVec 64} (hsign : c.Knows I S sign ⟨.i64, s⟩) (hcombo : c.Knows I S combo ⟨.i64, k⟩)
    (hdigits : c.Knows I S digits ⟨.i64, x⟩) :
    c.Knows I S (bin .or64 (bin .or64 sign (bin .or64 combo (.u64 (0x8E <<< 50))))
      (.call .bcdToDpd .i64 [digits])) ⟨.i64, assembled s k (Declet.ofPacked x)⟩ :=
  (hsign.bin (hcombo.bin (.const (.u64 (0x8E <<< 50))) rfl (hI.or .w64 k _)) rfl
    (hI.or .w64 s _)).bin (hdigits.call (hI.ofPacked x)) rfl (hI.or .w64 _ _)

/-- The code that makes a long decimal of packed digits. -/
theorem pack_comes (hI : I.Packing) (hlayout : env.layout = env.arch)
    (hnext : c.progress.next = .continue) :
    Comes env I c
      (ofPacked w >>= fun _ => if w.record = true then recordFloat else pure ())
      (w.slice 12 4 ≠ 0) fun next flow => next = .continue ∧ env.leave I next flow =
        givenBits env I w ((pack (w.slice 11 1 == 1)).value
          (c.state.fpr env.arch env.host I.order w.rb)) c.machine := by
  unfold ofPacked
  generalize (w.slice 11 1 == 1) = signed
  simp only [bind_assoc]
  refine source_comes hI.toPatterns hlayout fun bits c₁ _ hstate₁ hmemory₁ hbits => ?_
  generalize c.state.fpr env.arch env.host I.order w.rb = b at hbits ⊢
  have hmask (k : BitVec 64) {S : GuestState → Prop} :
      c₁.Knows I S (bin .and64 bits (.u64 k)) ⟨.i64, b &&& k⟩ :=
    hbits.bin (.const (.u64 k)) rfl (hI.and .w64 b k)
  have hshift (k : BitVec 8) (hk : k.toNat < 64) {S : GuestState → Prop} :
      c₁.Knows I S (bin .shr64 bits (.u8 k)) ⟨.i64, b >>> k.toNat⟩ :=
    hbits.bin (.const (.u8 k)) rfl (hI.shr .w64 b k hk)
  cases signed with
  | true =>
      simp only [if_true, bind_assoc, pure_bind]
      refine .bind (hmask 0xF).always fun code c₂ _ hstate₂ hmemory₂ hcode => ?_
      have : Since c c₂ := Since.trans c₁
      have hwide {S : GuestState → Prop} :=
        (minus_knows hI (hcode (S := S))).un rfl (hI.cast .zext1to64 rfl .i1 rfl _)
      have hsign {S : GuestState → Prop} :=
        (hwide (S := S)).bin (.const (.u8 63)) rfl (hI.shl .w64 _ 63 (by decide))
      have hdigits {S : GuestState → Prop} :
          c₂.Knows I S (bin .shr64 bits (.u8 4)) ⟨.i64, b >>> 4⟩ := (hshift 4 (by decide)).since
      exact finish_comes hI.toPatterns hlayout hnext (hstate₂.trans hstate₁)
        (hmemory₂.trans hmemory₁) (assembled_knows hI hsign (.const (.u64 (8 <<< 58))) hdigits)
  | false =>
      simp only [Bool.false_eq_true, if_false, bind_assoc, pure_bind]
      refine .bind (hshift 60 (by decide)).always fun first c₂ _ hstate₂ hmemory₂ hfirst => ?_
      have : Since c c₂ := Since.trans c₁
      have hplaced {S : GuestState → Prop} :=
        (combo_knows hI (hfirst (S := S))).bin (.const (.u8 58)) rfl
          (hI.shl .w64 _ 58 (by decide))
      have hdigits {S : GuestState → Prop} : c₂.Knows I S
          (bin .and64 bits (.u64 0xFFFFFFFFFFFFFFF)) ⟨.i64, b &&& 0xFFFFFFFFFFFFFFF#64⟩ :=
        (hmask 0xFFFFFFFFFFFFFFF).since
      exact finish_comes hI.toPatterns hlayout hnext (hstate₂.trans hstate₁)
        (hmemory₂.trans hmemory₁) (assembled_knows hI (.const (.u64 0)) hplaced hdigits)

/-- The code of a conversion. -/
theorem digits_comes (hI : I.Packing) (hlayout : env.layout = env.arch)
    (hnext : c.progress.next = .continue) {op : DigitOp} (hform : w.DigitForm op) :
    Comes env I c (lift w) (op.Reserved w) fun next flow => next = .continue ∧
      env.leave I next flow =
        givenBits env I w (op.value (c.state.fpr env.arch env.host I.order w.rb)) c.machine := by
  have hformat : format w ≠ .quad := by simp [format, hform.opcode]
  have hxo := hform.xo10
  have hcontrol := hform.control
  have hrun (convert : Insn → Lift Unit) :
      DecimalFloat.packed w convert =
        convert w >>= fun _ => if w.record = true then recordFloat else pure () := by
    rw [DecimalFloat.packed, if_neg hformat]
  have hlift : lift w = extended w := by
    simp only [lift, hform.opcode, hform.xo5, hform.xo9, true_or, if_true]
  rw [hlift]
  cases op with
  | unpack control =>
    obtain rfl : w.slice 11 2 = control := hcontrol
    have hextended : extended w = DecimalFloat.packed w toPacked := by
      rw [extended, hxo]
      rfl
    rw [hextended, hrun]
    exact unpack_comes hI hlayout hnext
  | pack signed =>
    obtain rfl : (w.slice 11 1 == 1) = signed := hcontrol
    have hextended : extended w = DecimalFloat.packed w ofPacked := by
      rw [extended, hxo]
      rfl
    rw [hextended, hrun]
    exact pack_comes hI hlayout hnext

end DecimalFloat

/-! ## Whole instructions -/

theorem Insn.DigitForm.route {op : DigitOp} (hform : w.DigitForm op) :
    Route.find? w = some ⟨.xo5 [2, 3], [.fp, .dfp], .decimalFloat⟩ := by
  have hopcode : Route.ofOpcode w.opcode = Route.floatArithmetic [24, 26] := by
    rw [hform.opcode]
    rfl
  rw [Route.find?_float hopcode, hform.xo5]
  decide

/-- A word that converts digits gives the result to its register. -/
theorem Guest.digits_performs (g : Guest) (hI : I.Packing) {op : DigitOp} (hform : w.DigitForm op) :
    g.Performs w I (g.Lacks [.fp, .dfp] ∨ op.Reserved w) fun cia next m out =>
      next = .continue ∧ out = DecimalFloat.givenBits (g.env cia cia) I w
        (op.value (m.state.fpr g.arch g.host I.order w.rb)) m := by
  refine Guest.performs hform.route (by simp [hform.opcode]) _
    (or_congr (Route.closed_iff _ g) Iff.rfl) fun env c hlayout henv hnext => ?_
  obtain ⟨cia, blockStart, rfl⟩ := henv
  exact DecimalFloat.digits_comes hI hlayout hnext hform

theorem GuestState.fpr_recorded {arch : Arch} {host order : ByteOrder} {σ : GuestState} {i : Nat}
    (hi : i < 32) : (σ.recorded arch w).fpr arch host order i = σ.fpr arch host order i := by
  unfold recorded
  split
  · exact fpr_withCrBytes hi 0 0
  · rfl

/-- What two conversions leave in a register, the second of what the first left. -/
theorem Guest.Runs.digits {g : Guest} (hI : I.Packing) {w' : Insn} {op op' : DigitOp}
    (hform : w.DigitForm op) (hform' : w'.DigitForm op') (hsame : w'.rb = w.rd) {σ σ' : GuestState}
    (hruns : g.Runs I [w, w'] σ σ') : σ'.fpr g.arch g.host I.order w'.rd =
      op'.value (op.value (σ.fpr g.arch g.host I.order w.rb)) := by
  obtain ⟨-, cia, next, temps, memory, out, ⟨-, rfl⟩, hrest⟩ :=
    hruns.step (g.digits_performs hI hform)
  obtain ⟨-, cia', next', temps', memory', out', ⟨-, rfl⟩, hend⟩ :=
    hrest.step (g.digits_performs hI hform')
  rw [hend.eq_of_nil]
  simp only [DecimalFloat.givenBits, Guest.env]
  rw [GuestState.fpr_recorded w'.rd_lt, GuestState.fpr_withFpr, GuestState.fpr_recorded w'.rb_lt,
    hsame, GuestState.fpr_withFpr]

/-- The routines that convert packed digits and declets undo each other, and so do the instructions:
packed digits come back from long decimals, and a long decimal of at most fifteen digits keeps its
coefficient, and its sign where that is spelled. -/
theorem Guest.digits_come_back (g : Guest) (hI : I.Packing) :
    (∀ b, ∀ i < 16, nibble (Declet.toPacked (Declet.ofPacked b)) i =
      if i < 15 then nibble b i % 10 else 0) ∧
    (∀ d, ∀ i < 16, nibble (Declet.toPacked d) i ≤ 9) ∧
    (∀ d d', d.toNat % 2 ^ 50 = d'.toNat % 2 ^ 50 → Declet.toPacked d = Declet.toPacked d') ∧
    (∀ d, Declet.toPacked (Declet.ofPacked (Declet.toPacked d)) = Declet.toPacked d ∧
      Declet.ofPacked (Declet.toPacked (Declet.ofPacked (Declet.toPacked d))) =
        Declet.ofPacked (Declet.toPacked d)) ∧
    (∀ {w : Insn} {op : DigitOp}, w.DigitForm op →
      g.Performs w I (g.Lacks [.fp, .dfp] ∨ op.Reserved w) fun cia next m out =>
        next = .continue ∧ out = DecimalFloat.givenBits (g.env cia cia) I w
          (op.value (m.state.fpr g.arch g.host I.order w.rb)) m) ∧
    ∀ {w w' : Insn} {σ σ' : GuestState}, w'.rb = w.rd → g.Runs I [w, w'] σ σ' →
      let x := σ.fpr g.arch g.host I.order w.rb
      let x' := σ'.fpr g.arch g.host I.order w'.rd
      (∀ control < 2, w.DigitForm (.pack false) → w'.DigitForm (.unpack control) →
        (∀ i < 16, nibble x i ≤ 9) → x' = x) ∧
      (w.DigitForm (.pack true) → w'.DigitForm (.unpack 2) →
        (∀ i < 15, nibble x' (i + 1) = nibble x (i + 1) % 10) ∧
        nibble x' 0 = if nibble x 0 = 0xB ∨ nibble x 0 = 0xD then 0xD else 0xC) ∧
      ∀ (control : Nat) (signed : Bool), (signed = true ↔ ¬control < 2) →
        w.DigitForm (.unpack control) → w'.DigitForm (.pack signed) →
        ∀ {negative : Bool} {coefficient biased : Nat},
          Format.long.decode x.toNat = .finite negative coefficient biased →
          coefficient < 10 ^ 15 →
          ∃ negative', Format.long.decode x'.toNat = .finite negative' coefficient 398 ∧
            (signed = true → negative' = negative) := by
  refine ⟨fun b i => Declet.nibble_toPacked_ofPacked b, fun d i => Declet.nibble_toPacked_le d,
    fun d d' => Declet.toPacked_congr, fun d => ?_, g.digits_performs hI, ?_⟩
  · have hback := Declet.toPacked_ofPacked_toPacked d
    exact ⟨hback, congrArg Declet.ofPacked hback⟩
  · intro w w' σ σ' hsame hruns x x'
    refine ⟨fun control hcontrol hpack hunpack hx => ?_, fun hpack hunpack => ?_,
      fun control signed hcontrol hunpack hpack negative coefficient biased hx hsmall => ?_⟩
    · exact (hruns.digits hI hpack hunpack hsame).trans (DigitOp.unpack_pack hcontrol hx)
    · have hx' : x' = _ := hruns.digits hI hpack hunpack hsame
      rw [hx']
      exact DigitOp.unpack_pack_signed x
    · have hx' : x' = _ := hruns.digits hI hunpack hpack hsame
      rw [hx']
      exact DigitOp.decode_pack_unpack hcontrol hx hsmall

namespace Interp

/-- The operators on integers, and those that take numbers for bits. -/
def packingOp : (op : Op) → List Value → BitVec op.signature.ret.bits
  | .float .bits64 => unary .f64 fun x => x
  | .float .ofBits64 => unary .i64 fun x => x
  | op => integralOp op

/-- The routines that convert digits. -/
def packingHelper : Helper → (ret : Ty) → List Value → BitVec ret.bits
  | .dpdToBcd, _, [a] => (Declet.toPacked (a.cut .i64)).setWidth _
  | .bcdToDpd, _, [a] => (Declet.ofPacked (a.cut .i64)).setWidth _
  | _, _, _ => 0

/-- The interpretation that converts digits and computes with integers. -/
def packing (order : ByteOrder) : Interp Unit :=
  { zero order with op := packingOp, helper := packingHelper }

theorem packing_packing (order : ByteOrder) : (packing order).Packing where
  toIntegral := (integral_integral order).congr fun op hop => by
    cases op with
    | float f => cases hop
    | _ => rfl
  bits64 x := unary_mk (fun x : BitVec Ty.f64.bits => x) x
  ofBits64 x := unary_mk (fun x : BitVec Ty.i64.bits => x) x
  toPacked x := by
    have hcut : (⟨.i64, x⟩ : Value).cut .i64 = x := BitVec.setWidth_eq x
    exact (BitVec.setWidth_eq _).trans (congrArg Declet.toPacked hcut)
  ofPacked x := by
    have hcut : (⟨.i64, x⟩ : Value).cut .i64 = x := BitVec.setWidth_eq x
    exact (BitVec.setWidth_eq _).trans (congrArg Declet.ofPacked hcut)

end Interp

/-- The words `denbcd 1,fr3,fr4` and `ddedpd 2,fr5,fr3` run from a state with all bytes `0x9D`. Half of
its digits are above nine. -/
theorem Guest.digits_come_back_words :
    let g : Guest := { arch := .ppc64, info := { caps := ⟨Capability.ppc64DFP.mask⟩ } }
    ∃ σ', g.Runs (.packing .little) [⟨0xEC702684⟩, ⟨0xECB01A84⟩] (fun _ => 0x9D) σ' ∧
      σ'.fpr .ppc64 .little .little 5 = 0x939393939393939D := by
  intro g
  obtain ⟨-, -, -, -, hperforms, hruns⟩ := Guest.digits_come_back g (Interp.packing_packing .little)
  have hpack : (⟨0xEC702684⟩ : Insn).DigitForm (.pack true) := ⟨by decide, by decide, by decide⟩
  have hunpack : (⟨0xECB01A84⟩ : Insn).DigitForm (.unpack 2) := ⟨by decide, by decide, by decide⟩
  have hopen : ¬g.Lacks [.fp, .dfp] := by
    rintro ⟨gate, hgate, hclosed⟩
    simp only [List.mem_cons, List.not_mem_nil, or_false] at hgate
    obtain rfl | rfl := hgate <;> revert hclosed <;> decide
  obtain ⟨-, -, -, out, -, hfirst⟩ := (hperforms hpack).runs (by decide)
    ⟨#[0xEC, 0x70, 0x26, 0x84]⟩ (by decide) (not_or.mpr ⟨hopen, by decide⟩) () fun _ => 0x9D
  obtain ⟨-, -, -, out', -, hsecond⟩ := (hperforms hunpack).runs (by decide)
    ⟨#[0xEC, 0xB0, 0x1A, 0x84]⟩ (by decide) (not_or.mpr ⟨hopen, by decide⟩) () out.state
  have hrun : g.Runs (.packing .little) [⟨0xEC702684⟩, ⟨0xECB01A84⟩] (fun _ => 0x9D) out'.state :=
    hfirst (hsecond (.nil _))
  obtain ⟨hdigits, hsign⟩ := (hruns (by decide) hrun).2.1 hpack hunpack
  have hstart : GuestState.fpr .ppc64 .little .little (fun _ => 0x9D) 4 = 0x9D9D9D9D9D9D9D9D := by
    decide +kernel
  have hnibbles : ∀ i < 15, nibble 0x9D9D9D9D9D9D9D9D (i + 1) % 10 =
      nibble 0x939393939393939D (i + 1) := by decide
  refine ⟨_, hrun, Declet.eq_of_nibbles fun i hi => ?_⟩
  cases i with
  | zero =>
    refine hsign.trans ?_
    change (if nibble (GuestState.fpr .ppc64 .little .little (fun _ => 0x9D) 4) 0 = 0xB ∨
      nibble (GuestState.fpr .ppc64 .little .little (fun _ => 0x9D) 4) 0 = 0xD then 0xD else 0xC) = _
    rw [hstart]
    decide
  | succ i =>
    refine (hdigits i (by omega)).trans ?_
    change nibble (GuestState.fpr .ppc64 .little .little (fun _ => 0x9D) 4) (i + 1) % 10 = _
    rw [hstart]
    exact hnibbles i (by omega)

end PowerLift
