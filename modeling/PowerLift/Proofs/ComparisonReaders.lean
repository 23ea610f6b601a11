import PowerLift.Proofs.Comparisons

/-!
# Readers of condition fields

What a comparison leaves in a condition field comes into general registers, into other fields, and
decides selections and branches. Each of these tells the outcome of the comparison.
-/

namespace PowerLift

open CrWord (bit field)
open Layout (InField)
open Lift (exec)
open Point (Has Knows Step Since)
open PowerLift.Expr (un bin)

variable {M : Type} {I : Interp M} {env : Env} {c : Point M} {w : Insn} {f : Nat}

/-! ## Instructions -/

/-- An instruction that tells what a condition field holds, and goes on to the next. -/
inductive FieldReader where
  /-- The whole register comes into a general register. -/
  | word
  /-- The field comes into a general register, in its place. -/
  | single
  /-- The field comes into another field. -/
  | copy
  /-- Bit `k` chooses between two registers. -/
  | select (k : Nat)
  /-- A general register becomes negative, positive or zero. -/
  | sign
  deriving DecidableEq

/-- The words that read field `f`. -/
inductive Insn.ReadsField (w : Insn) (f : Nat) : FieldReader → Prop where
  | word (hopcode : w.opcode = 31) (hxo : w.xo10 = 19) (hform : w.slice 11 1 = 0) :
    ReadsField w f .word
  | single (hopcode : w.opcode = 31) (hxo : w.xo10 = 19) (hform : w.slice 11 1 = 1) (hf : f < 8)
    (hmask : w.crm = 0x80 >>> f) : ReadsField w f .single
  | copy (hopcode : w.opcode = 19) (hxo : w.xo10 = 0) (hf : w.crfs = f) : ReadsField w f .copy
  | select {k : Nat} (hopcode : w.opcode = 31) (hxo : w.xo5 = 15) (hk : k < 4)
    (hbit : w.rcField = 4 * f + k) : ReadsField w f (.select k)
  | sign (hopcode : w.opcode = 31) (hxo : w.xo10 = 128) (hf : w.slice 11 3 = f) :
    ReadsField w f .sign

namespace FieldReader

/-- What a processor needs to have the instruction. -/
def gates : FieldReader → List Gate
  | sign => [.isa30]
  | _ => []

/-- Whether a field that must be zero is not. -/
def Reserved (w : Insn) : FieldReader → Prop
  | word => w.record = true ∨ w.slice 20 1 ≠ 0 ∨ w.slice 12 8 ≠ 0
  | single => w.record = true ∨ w.slice 20 1 ≠ 0
  | copy => w.slice 9 2 ≠ 0 ∨ w.slice 14 7 ≠ 0 ∨ w.record = true
  | select _ => w.record = true
  | sign => w.slice 14 7 ≠ 0 ∨ w.record = true

/-- The state in which a reader of field `f` leaves another. -/
def after (arch : Arch) (order : ByteOrder) (w : Insn) (f : Nat) (σ : GuestState) :
    FieldReader → GuestState
  | word => σ.withOperand arch order w.rd ((σ.cr arch).setWidth _)
  | single =>
      σ.withOperand arch order w.rd (((field (σ.cr arch) f).setWidth 32 <<< (28 - 4 * f)).setWidth _)
  | copy =>
      let nibble := (field (σ.cr arch) f).setWidth 32
      σ.withCrBytes arch w.crfd ((nibble &&& 0xE).setWidth 8) ((nibble &&& 1).setWidth 8)
  | select k =>
      σ.withOperand arch order w.rd
        (if bit (σ.cr arch) (4 * f + k) then σ.base arch order w.ra else σ.operand arch order w.rb)
  | sign =>
      σ.withOperand arch order w.rd
        (if bit (σ.cr arch) (4 * f) then .allOnes _
        else if bit (σ.cr arch) (4 * f + 1) then 1 else 0)

/-- The state in which a reader leaves another, told from the outcome of a comparison. -/
def tells (arch : Arch) (order : ByteOrder) (w : Insn) (f : Nat) (v : Verdict) (σ : GuestState) :
    FieldReader → GuestState
  | word => σ.withOperand arch order w.rd ((σ.cr arch).setWidth _)
  | single => σ.withOperand arch order w.rd ((v.nibble.setWidth 32 <<< (28 - 4 * f)).setWidth _)
  | copy => σ.withVerdict arch w.crfd v
  | select k =>
      σ.withOperand arch order w.rd
        (if v.bit k then σ.base arch order w.ra else σ.operand arch order w.rb)
  | sign =>
      σ.withOperand arch order w.rd
        (match v.order with
        | .lt => -1
        | .gt => 1
        | .eq => 0)

variable {arch : Arch} {order : ByteOrder} {σ : GuestState} {v : Verdict} {r : FieldReader}

/-- Where a comparison left its outcome, readers tell it. -/
theorem after_eq_tells (hform : w.ReadsField f r) (hf : f < 8) :
    r.after arch order w f (σ.withVerdict arch f v) =
      r.tells arch order w f v (σ.withVerdict arch f v) := by
  have hfield : field ((σ.withVerdict arch f v).cr arch) f = v.nibble :=
    GuestState.field_withVerdict hf v
  have hbit {k : Nat} (hk : k < 4) :
      bit ((σ.withVerdict arch f v).cr arch) (4 * f + k) = v.bit k :=
    GuestState.bit_withVerdict hf hk v
  cases hform with
  | word => rfl
  | single => rw [after, hfield, tells]
  | copy =>
      obtain ⟨hhigh, hlow⟩ := v.split_nibble
      rw [after, hfield, hhigh, hlow]
      rfl
  | select hopcode hxo hk => rw [after, hbit hk, tells]
  | sign =>
      have hless : bit ((σ.withVerdict arch f v).cr arch) (4 * f) = v.bit 0 :=
        hbit (k := 0) (by decide)
      have hgreater : bit ((σ.withVerdict arch f v).cr arch) (4 * f + 1) = v.bit 1 :=
        hbit (k := 1) (by decide)
      rw [after, hless, hgreater, tells]
      congr 1
      cases hv : v.order <;> simp [Verdict.bit, hv, BitVec.neg_one_eq_allOnes]

end FieldReader

/-! ## Steps -/

/-- A choice between two numbers that are known. -/
theorem Point.Knows.choose {S : GuestState → Prop} {e a b : Expr} {p : Bool} {ty : Ty}
    {x y : BitVec ty.bits} (he : c.Knows I S e ⟨.i1, .ofBool p⟩) (ha : c.Knows I S a ⟨ty, x⟩)
    (hb : c.Knows I S b ⟨ty, y⟩) : c.Knows I S (.ite e a b) ⟨ty, if p then x else y⟩ := by
  refine .ite he ha.check hb.check (fun h => ?_) fun h => ?_
  · rwa [if_pos h]
  · rwa [if_neg (by simp [h])]

namespace FieldReader

variable {φ : Prop} {Q : Continuation → Flow M → Prop}

/-- How a reader is left. -/
def left (env : Env) (I : Interp M) (w : Insn) (f : Nat) (r : FieldReader) (m : Machine M) :
    Left M :=
  ⟨env.nia, .boring, m.memory, r.after env.arch I.order w f m.state⟩

/-- A general register is written last. -/
theorem putGpr_comes (hlayout : env.layout = env.arch) {i : Nat} (hi : i < 32) {e : Expr}
    {x : BitVec env.arch.word.ty.bits} (he : c.Has I e ⟨env.arch.word.ty, x⟩)
    (hnext : c.progress.next = .continue) {out : Left M}
    (hout : (⟨env.nia, .boring, c.memory, c.state.withOperand env.arch I.order i x⟩ : Left M) =
      out) :
    Comes env I c (Lift.putGpr i e) False fun next flow =>
      next = .continue ∧ env.leave I next flow = out := by
  refine .last (.putGpr hlayout hi he fun c' _ hstate hmemory => ?_)
  refine .done (Since.next_eq hnext) ⟨rfl, ?_⟩
  rw [← hout, ← hstate, ← hmemory]
  rfl

/-- A word comes into a general register. -/
theorem putWord_comes (hI : I.Integral) (hlayout : env.layout = env.arch) {i : Nat} (hi : i < 32)
    {e : Expr} {x : BitVec 32} (he : c.Has I e (.i32 x)) (hnext : c.progress.next = .continue)
    {out : Left M} (hout : (⟨env.nia, .boring, c.memory,
      c.state.withOperand env.arch I.order i (x.setWidth _)⟩ : Left M) = out) :
    Comes env I c (Lift.bind e >>= fun v => Lift.widen v false >>= Lift.putGpr i) False
      fun next flow => next = .continue ∧ env.leave I next flow = out := by
  refine .bind he fun t c₁ _ hstate₁ hmemory₁ ht => ?_
  have hword : c₁.Knows I (fun _ => True) t _ := ht
  have hwidened : c₁.Knows I (fun _ => True) _ _ := hword.widened hI env.arch false
  refine .give (exec_widened hword false) ?_
  refine putGpr_comes hlayout hi hwidened.always (Since.next_eq hnext) ?_
  rw [← hout, hstate₁, hmemory₁]
  rfl

theorem read_comes (hI : I.Integral) (hlayout : env.layout = env.arch) {r : FieldReader}
    (hform : r = .word ∧ w.slice 11 1 = 0 ∨
      r = .single ∧ w.slice 11 1 = 1 ∧ f < 8 ∧ w.crm = 0x80 >>> f)
    (hnext : c.progress.next = .continue) :
    Comes env I c (ConditionRegister.read w) (r.Reserved w) fun next flow =>
      next = .continue ∧ env.leave I next flow = left env I w f r c.machine := by
  obtain ⟨cr, hexec, hcr⟩ := Lift.Yields.knows (getCr_yields hI.toBitwise) c
  rw [hlayout] at hcr
  unfold ConditionRegister.read
  obtain ⟨rfl, hall⟩ | ⟨rfl, hone, hf, hmask⟩ := hform
  · have hreserved : (w.record = true ∨ w.slice 20 1 ≠ 0 ∨ w.slice 12 8 ≠ 0 ∨ False) ↔
        word.Reserved w := by simp only [Reserved, or_false]
    simp only [hall, pure_bind]
    refine Comes.congr (.guard (Lift.reservedClear_refuses w _ _) fun _ =>
      .guard (Lift.reservedZero_refuses w _ _) fun _ => .give hexec
        (.guard (Lift.reservedZero_refuses w _ _) fun _ => .listed fun c₁ _ hmachine₁ => ?_))
      hreserved
    rw [← hmachine₁]
    have hstate₁ : c₁.state = c.state := congrArg Machine.state hmachine₁
    rw [← hstate₁] at hcr
    exact putWord_comes hI hlayout w.rd_lt (hcr.since.has rfl) (Since.next_eq hnext) rfl
  · have hreserved : (w.record = true ∨ w.slice 20 1 ≠ 0 ∨ False) ↔ single.Reserved w := by
      simp only [Reserved, or_false]
    simp only [hone, hmask, singleField?_eq f hf, pure_bind]
    refine Comes.congr (.guard (Lift.reservedClear_refuses w _ _) fun _ =>
      .guard (Lift.reservedZero_refuses w _ _) fun _ => .give hexec
        (.listed fun c₁ _ hmachine₁ => ?_)) hreserved
    rw [← hmachine₁]
    have hstate₁ : c₁.state = c.state := congrArg Machine.state hmachine₁
    rw [← hstate₁] at hcr
    have hmasked : c.Knows I (· = c₁.state) (bin .and32 cr (.u32 (0xF <<< (28 - 4 * f) : Nat)))
        (.i32 ((field (c₁.state.cr env.arch) f).setWidth 32 <<< (28 - 4 * f))) :=
      (hcr.bin (.const (.u32 _)) rfl (hI.and .w32 _ _)).congr
        (congrArg Value.i32 (CrWord.and_nibble hf _))
    exact putWord_comes hI hlayout w.rd_lt (hmasked.since.has rfl) (Since.next_eq hnext) rfl

theorem copy_comes (hI : I.Bitwise) (hlayout : env.layout = env.arch)
    (hnext : c.progress.next = .continue) :
    Comes env I c (ConditionRegister.moveField w) (copy.Reserved w) fun next flow =>
      next = .continue ∧ env.leave I next flow = left env I w w.crfs copy c.machine := by
  have hreserved : (w.slice 9 2 ≠ 0 ∨ w.slice 14 7 ≠ 0 ∨ w.record = true ∨ False) ↔
      copy.Reserved w := by simp only [Reserved, or_false]
  unfold ConditionRegister.moveField
  refine Comes.congr (.guard (Lift.reservedZero_refuses w _ _) fun _ =>
    .guard (Lift.reservedZero_refuses w _ _) fun _ =>
      .guard (Lift.reservedClear_refuses w _ _) fun _ => .listed fun c₁ _ hmachine₁ => ?_) hreserved
  obtain ⟨e, hexec, he⟩ := Lift.Yields.knows (getCrField_yields hI w.crfs_lt) c₁
  rw [hlayout] at he
  refine .give hexec (.last ?_)
  refine .putCrField hI hlayout w.crfd_lt (he.has rfl) fun c₂ _ hstate₂ hmemory₂ => ?_
  have : Since c c₂ := Since.trans c₁
  refine .done (Since.next_eq hnext) ⟨rfl, ?_⟩
  rw [← hmachine₁]
  change (⟨_, _, c₂.memory, c₂.state⟩ : Left M) = _
  rw [hstate₂, hmemory₂]
  rfl

/-- Whether a bit of the condition register is set. -/
theorem testBit_knows (hI : I.Integral) (hlayout : env.layout = env.arch) {b : Nat} (hb : b < 32)
    (c : Point M) : ∃ e, exec env c.progress (Lift.getCrBit b) = (.ok e, c.progress) ∧
      c.Knows I (· = c.state) (bin .cmpNE32 e (.u32 0))
        ⟨.i1, .ofBool (bit (c.state.cr env.arch) b)⟩ := by
  obtain ⟨e, hexec, he⟩ := Lift.Yields.knows (getCrBit_yields hI.toBitwise hb) c
  rw [hlayout] at he
  refine ⟨e, hexec, (he.bin (.const (.u32 0)) rfl (hI.cmpNE .w32 _ _)).congr ?_⟩
  cases bit (c.state.cr env.arch) b <;> rfl

theorem select_comes (hI : I.Integral) (hlayout : env.layout = env.arch) {k : Nat}
    (hbit : w.rcField = 4 * f + k) (hnext : c.progress.next = .continue) :
    Comes env I c (Logic.select w) ((select k).Reserved w) fun next flow =>
      next = .continue ∧ env.leave I next flow = left env I w f (select k) c.machine := by
  have hlt : w.rcField < 32 := w.bits_lt 6 5
  unfold Logic.select
  refine Comes.congr (.guard (Lift.reservedClear_refuses w _ _) fun _ =>
    .listed fun c₁ _ hmachine₁ => ?_) (or_iff_left id : w.record = true ∨ False ↔ _)
  rw [← hmachine₁]
  obtain ⟨e, hexec, he⟩ := testBit_knows hI hlayout hlt c₁
  obtain ⟨a, hbase, ha⟩ := getBase_knows (I := I) hlayout w.ra_lt c₁
  have hb : c₁.Knows I (· = c₁.state) (.gpr env.arch w.rb) _ := Point.knows_gpr env.arch w.rb
  rw [hbit] at he
  have hchosen := he.choose ha hb
  refine .give hexec (.give hbase (.give (exec_getGpr hlayout w.rb_lt) ?_))
  refine .bind (hchosen.has rfl) fun t c₂ _ hstate₂ hmemory₂ ht => ?_
  refine putGpr_comes hlayout w.rd_lt ht.always (Since.next_eq hnext) ?_
  rw [hstate₂, hmemory₂]
  rfl

theorem sign_comes (hI : I.Integral) (hlayout : env.layout = env.arch)
    (hnext : c.progress.next = .continue) :
    Comes env I c (Comparison.setFromField w) (sign.Reserved w) fun next flow =>
      next = .continue ∧ env.leave I next flow = left env I w (w.slice 11 3) sign c.machine := by
  have hlt : w.slice 11 3 < 8 := w.bits_lt _ 3
  have hreserved : (w.slice 14 7 ≠ 0 ∨ w.record = true ∨ False) ↔ sign.Reserved w := by
    simp only [Reserved, or_false]
  unfold Comparison.setFromField
  refine Comes.congr (.guard (Lift.reservedZero_refuses w _ _) fun _ =>
    .guard (Lift.reservedClear_refuses w _ _) fun _ => .listed fun c₁ _ hmachine₁ => ?_) hreserved
  rw [← hmachine₁]
  generalize w.slice 11 3 = f at hlt
  obtain ⟨less, hexec, hless⟩ := testBit_knows hI hlayout (show 4 * f < 32 by omega) c₁
  obtain ⟨greater, hexec', hgreater⟩ := testBit_knows hI hlayout (show 4 * f + 1 < 32 by omega) c₁
  have hlit (x : BitVec 64) : c₁.Knows I (· = c₁.state) (env.imm x) _ := Point.knows_imm x
  have hchosen := hless.choose (hlit (.allOnes 64)) (hgreater.choose (hlit 1) (hlit 0))
  refine .give hexec (.give hexec' (.give rfl (.give rfl (.give rfl ?_))))
  refine putGpr_comes hlayout w.rd_lt (hchosen.has rfl) (Since.next_eq hnext) ?_
  have hones : (BitVec.allOnes 64).setWidth env.arch.word.ty.bits = .allOnes _ := by
    cases env.arch <;> rfl
  have hone : (1 : BitVec 64).setWidth env.arch.word.ty.bits = 1 := by cases env.arch <;> rfl
  have hzero : (0 : BitVec 64).setWidth env.arch.word.ty.bits = 0 := by cases env.arch <;> rfl
  rw [hones, hone, hzero]
  rfl

/-- The code of a reader. -/
def code (w : Insn) : FieldReader → Lift Unit
  | word | single => ConditionRegister.read w
  | copy => ConditionRegister.moveField w
  | select _ => Logic.select w
  | sign => Comparison.setFromField w

theorem code_comes (hI : I.Integral) (hlayout : env.layout = env.arch) {r : FieldReader}
    (hform : w.ReadsField f r) (hnext : c.progress.next = .continue) :
    Comes env I c (r.code w) (r.Reserved w) fun next flow =>
      next = .continue ∧ env.leave I next flow = left env I w f r c.machine := by
  cases hform with
  | word _ _ hform => exact read_comes hI hlayout (.inl ⟨rfl, hform⟩) hnext
  | single _ _ hform hf hmask => exact read_comes hI hlayout (.inr ⟨rfl, hform, hf, hmask⟩) hnext
  | copy _ _ hf =>
      subst hf
      exact copy_comes hI.toBitwise hlayout hnext
  | select _ _ _ hbit => exact select_comes hI hlayout hbit hnext
  | sign _ _ hf =>
      subst hf
      exact sign_comes hI hlayout hnext

end FieldReader

/-! ## Whole instructions -/

theorem Insn.ReadsField.route {r : FieldReader} (hform : w.ReadsField f r) :
    ∃ route, Route.find? w = some route ∧ route.gates = r.gates ∧
      route.family.lift w = r.code w ∧ w.opcode ≠ 21 ∧ w.opcode ≠ 30 := by
  cases hform with
  | word hopcode hxo | single hopcode hxo =>
      have hcondition : w.IsCondition := .inr ⟨hopcode, by simp [hxo]⟩
      obtain ⟨pattern, hroute⟩ := Route.find?_condition hcondition
      refine ⟨_, hroute, rfl, ?_, by simp [hopcode]⟩
      simp only [Family.lift, ConditionRegister.lift, hopcode, hxo, FieldReader.code]
  | copy hopcode hxo =>
      have hcondition : w.IsCondition := .inl ⟨hopcode, by simp [hxo]⟩
      obtain ⟨pattern, hroute⟩ := Route.find?_condition hcondition
      refine ⟨_, hroute, rfl, ?_, by simp [hopcode]⟩
      simp only [Family.lift, ConditionRegister.lift, hopcode, hxo, FieldReader.code]
  | select hopcode hxo =>
      refine ⟨⟨.xo5 [15], [], .logic⟩, ?_, rfl, ?_, by simp [hopcode]⟩
      · rw [w.xo5_eq] at hxo
        rw [Route.find?_register hopcode, Route.ofXo10, Route.registerForms]
        simp [Pattern.takes, hxo]
      · simp [Family.lift, Logic.lift, hopcode, hxo, FieldReader.code]
  | sign hopcode hxo =>
      obtain ⟨_, hroute⟩ : ∃ pattern, Route.find? w = some ⟨pattern, [.isa30], .comparison⟩ :=
        Route.find?_form hopcode hxo (by decide)
      refine ⟨_, hroute, rfl, ?_, by simp [hopcode]⟩
      simp only [Family.lift, Comparison.lift, hopcode, hxo, FieldReader.code]

/-- A reader of a condition field does what its field says, wherever it stands. -/
theorem Guest.readsField_performs (g : Guest) (hI : I.Integral) {r : FieldReader}
    (hform : w.ReadsField f r) :
    g.Performs w I (g.Lacks r.gates ∨ r.Reserved w) fun cia next m out =>
      next = .continue ∧ out = FieldReader.left (g.env cia cia) I w f r m := by
  obtain ⟨route, hroute, hgates, hlift, hopcode⟩ := hform.route
  have hclosed : route.Closed g ↔ g.Lacks r.gates := by
    rw [Route.closed_iff, hgates]
    rfl
  refine Guest.performs hroute hopcode _ (or_congr_left hclosed) fun env c hlayout henv hnext => ?_
  obtain ⟨cia, blockStart, rfl⟩ := henv
  rw [hlift]
  exact FieldReader.code_comes hI hlayout hform hnext

/-- A conditional branch is taken if its options allow it. -/
theorem Guest.conditional_performs (g : Guest) (hI : I.Integral) (hopcode : w.opcode = 16) :
    g.Performs w I False fun cia next m out => (∃ kind, next = .stop kind) ∧
      out = (g.env cia cia).leavesBranch I w true (.fixed (w.displacement 14)) m := by
  have hroute : Route.find? w = some ⟨.any, [], .branch⟩ :=
    Route.find?_only (by rw [hopcode]; rfl)
  refine Guest.performs hroute (by simp [hopcode]) False (by simp [Route.not_closed g])
    fun env c hlayout henv _ => ?_
  obtain ⟨cia, blockStart, rfl⟩ := henv
  have hlift : Branch.lift w = Branch.conditional w := by simp only [Branch.lift, hopcode]
  change Comes _ I c (Branch.lift w) _ _
  rw [hlift]
  exact Branch.conditional_comes hI hlayout

/-! ## From the comparison to its readers -/

/-- What holds of a state that has an outcome in field `f` and is otherwise like `σ`: each bit is
what it should be, and each reader and each conditional branch tells it. -/
structure Guest.TellsVerdict (g : Guest) (I : Interp M) (f : Nat) (v : Verdict)
    (σ σ' : GuestState) : Prop where
  /-- One of the first three bits is set. -/
  unique : ∃! k, k < 3 ∧ bit (σ'.cr g.arch) (4 * f + k) = true
  bits : ∀ k < 4, bit (σ'.cr g.arch) (4 * f + k) = v.bit k
  nibble : field (σ'.cr g.arch) f = v.nibble
  /-- Nothing but the field has changed. -/
  kept : ∀ o, ¬InField g.arch f o → σ' o = σ o
  reads : ∀ {w : Insn} {r : FieldReader}, w.ReadsField f r →
    g.Performs w I (g.Lacks r.gates ∨ r.Reserved w) fun cia next m out => m.state = σ' →
      next = .continue ∧
        out = ⟨(g.env cia cia).nia, .boring, m.memory, r.tells g.arch I.order w f v σ'⟩
  branches : ∀ {w : Insn} {k : Nat}, k < 4 → w.opcode = 16 → w.bi = 4 * f + k →
    g.Performs w I False (fun cia next m out => m.state = σ' → (∃ kind, next = .stop kind) ∧
      out = (g.env cia cia).leavesBranch I w true (.fixed (w.displacement 14)) m) ∧
    w.takes g.arch I.order σ' =
      ((w.bo.testBit 2 ||
          (w.counted (σ'.special g.arch I.order .ctr) == 0) == w.bo.testBit 1) &&
        (w.bo.testBit 4 || v.bit k == w.bo.testBit 3))

theorem Guest.tellsVerdict (g : Guest) (hI : I.Integral) (hf : f < 8) (v : Verdict)
    (σ : GuestState) : g.TellsVerdict I f v σ (σ.withVerdict g.arch f v) := by
  have hbits : ∀ k < 4, bit ((σ.withVerdict g.arch f v).cr g.arch) (4 * f + k) = v.bit k :=
    fun k hk => GuestState.bit_withVerdict hf hk v
  refine ⟨?_, hbits, GuestState.field_withVerdict hf v, fun o ho => ?_, fun hform => ?_,
    fun hk hopcode hbit => ⟨?_, ?_⟩⟩
  · obtain ⟨k, ⟨hk, hset⟩, hunique⟩ := v.bit_unique
    refine ⟨k, ⟨hk, (hbits k (by omega)).trans hset⟩, fun j ⟨hj, hjset⟩ => ?_⟩
    exact hunique j ⟨hj, (hbits j (by omega)).symm.trans hjset⟩
  · exact GuestState.withCrBytes_apply ho _ _
  · refine (g.readsField_performs hI hform).mono ?_
    rintro cia next m out ⟨hnext, rfl⟩ hstate
    refine ⟨hnext, ?_⟩
    rw [FieldReader.left, hstate]
    exact congrArg (Left.mk _ _ _) (FieldReader.after_eq_tells hform hf)
  · exact (g.conditional_performs hI hopcode).mono fun cia next m out hleft _ => hleft
  · rw [Insn.takes, hbit, hbits _ hk]

/-- A comparison leaves the order of its operands in its condition field, with the summary
overflow, and changes nothing else. All that reads the field behind it tells that order. -/
theorem Guest.comparison_reaches (g : Guest) (hI : I.Integral) {s : Sign} {register : Bool}
    (hform : w.CompareForm s register) :
    g.Performs w I (w.CompareRefused register g.arch) (fun cia next m out => next = .continue ∧
      out = ⟨(g.env cia cia).nia, .boring, m.memory, m.state.withVerdict g.arch w.crfd
        (w.verdict s register g.arch I.order m.state)⟩) ∧
    ∀ σ : GuestState, g.TellsVerdict I w.crfd (w.verdict s register g.arch I.order σ) σ
      (σ.withVerdict g.arch w.crfd (w.verdict s register g.arch I.order σ)) :=
  ⟨g.compare_performs hI hform, fun σ => g.tellsVerdict hI w.crfd_lt _ σ⟩

/-- The words `cmpw cr2,r3,r4` and `mfocrf r5,cr2` run from a state in which the first operand is
minus one and the second is one. -/
theorem Guest.comparison_reaches_words :
    let g : Guest := { arch := .ppc64 }
    let σ : GuestState := fun o => if 24 ≤ o ∧ o < 32 then 0xFF else if o = 39 then 1 else 0
    ∃ σ', g.Runs (.integral .big) [⟨0x7D032000⟩, ⟨0x7CB20026⟩] σ σ' ∧
      σ'.operand .ppc64 .big 5 = 0x00800000#64 := by
  intro g σ
  have hcompare : (⟨0x7D032000⟩ : Insn).CompareForm .signed true := .cmp (by decide) (by decide)
  have hread : (⟨0x7CB20026⟩ : Insn).ReadsField 2 .single :=
    .single (by decide) (by decide) (by decide) (by decide) (by decide)
  obtain ⟨hperforms, htells⟩ :=
    Guest.comparison_reaches g (Interp.integral_integral .big) hcompare
  obtain ⟨cia, next, temps, out, ⟨-, rfl⟩, hruns⟩ :=
    hperforms.runs (by decide) ⟨#[0x7D, 0x03, 0x20, 0x00]⟩ (by decide) (by decide) () σ
  have haccepted : ¬(g.Lacks FieldReader.single.gates ∨
      FieldReader.single.Reserved ⟨0x7CB20026⟩) := by
    rintro (⟨gate, hgate, -⟩ | hreserved)
    · exact List.not_mem_nil hgate
    · revert hreserved
      simp only [FieldReader.Reserved]
      decide
  obtain ⟨cia', next', temps', out', hout, hruns'⟩ :=
    ((htells σ).reads hread).runs (by decide) ⟨#[0x7C, 0xB2, 0x00, 0x26]⟩ (by decide) haccepted () _
  obtain ⟨-, rfl⟩ := hout rfl
  refine ⟨_, hruns (hruns' (.nil _)), ?_⟩
  have hnibble : ((⟨0x7D032000⟩ : Insn).verdict .signed true .ppc64 .big σ).nibble = 8#4 := by
    decide +kernel
  refine (GuestState.operand_withOperand _ _).trans ?_
  change ((Verdict.nibble (Insn.verdict ⟨0x7D032000⟩ .signed true .ppc64 .big σ)).setWidth 32 <<<
    20).setWidth 64 = 0x00800000#64
  rw [hnibble]
  decide

end PowerLift
