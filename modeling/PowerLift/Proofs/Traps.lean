import PowerLift.Proofs.FlagConditions
import PowerLift.Proofs.IntegerForms
import PowerLift.Proofs.Outcomes

/-!
# Traps

A trap instruction compares two numbers, as signed and as unsigned numbers, and traps if one of the
relations that its field selects holds. Nothing else happens. Where the relations hold between any
two numbers, the code behind the trap is not decoded.
-/

namespace PowerLift

open Point (Knows Step Since)

variable {M : Type} {I : Interp M} {env : Env} {c : Point M} {w : Insn}

/-! ## The trap field -/

namespace Trap

/-- One of the relations that the trap field selects holds. -/
def Fires (field : Nat) {n : Nat} (a b : BitVec n) : Prop :=
  (field.testBit 4 = true ∧ a.toInt < b.toInt) ∨ (field.testBit 3 = true ∧ b.toInt < a.toInt) ∨
    (field.testBit 2 = true ∧ a = b) ∨
    (field.testBit 1 = true ∧ a.toNat < b.toNat) ∨ (field.testBit 0 = true ∧ b.toNat < a.toNat)

instance (field : Nat) {n : Nat} (a b : BitVec n) : Decidable (Fires field a b) :=
  inferInstanceAs (Decidable (_ ∨ _))

theorem always_eq {field : Nat} (hfield : field < 32) :
    always field = (field.testBit 2 &&
      (field.testBit 4 && field.testBit 3 || field.testBit 1 && field.testBit 0)) := by
  revert field
  decide

/-- Any two numbers are equal, or one is less than the other. -/
theorem fires_of_always {field : Nat} (hfield : field < 32) (h : always field = true) {n : Nat}
    (a b : BitVec n) : Fires field a b := by
  rw [always_eq hfield] at h
  simp only [Bool.and_eq_true, Bool.or_eq_true] at h
  obtain ⟨hequal, hsigned | hunsigned⟩ := h
  · rcases Int.lt_trichotomy a.toInt b.toInt with hlt | heq | hgt
    · exact .inl ⟨hsigned.1, hlt⟩
    · exact .inr (.inr (.inl ⟨hequal, BitVec.toInt_inj.mp heq⟩))
    · exact .inr (.inl ⟨hsigned.2, hgt⟩)
  · rcases Nat.lt_trichotomy a.toNat b.toNat with hlt | heq | hgt
    · exact .inr (.inr (.inr (.inl ⟨hunsigned.1, hlt⟩)))
    · exact .inr (.inr (.inl ⟨hequal, BitVec.toNat_inj.mp heq⟩))
    · exact .inr (.inr (.inr (.inr ⟨hunsigned.2, hgt⟩)))

/-- Four pairs of numbers tell the relations apart: the signs of two of them differ. -/
theorem always_of_fires {field : Nat} (hfield : field < 32) {n : Nat} (hn : 1 < n)
    (h : ∀ a b : BitVec n, Fires field a b) : always field = true := by
  have hone : (1#n).toNat = 1 := by simp; omega
  have hpos : (1#n).toInt = 1 := BitVec.toInt_one hn
  have hzero : (0#n).toInt = 0 := BitVec.toInt_zero
  have hmost : (BitVec.allOnes n).toNat = 2 ^ n - 1 := BitVec.toNat_allOnes
  have hneg : (BitVec.allOnes n).toInt = -1 := by rw [BitVec.toInt_allOnes, if_pos (by omega)]
  have hpow : 2 ^ 2 ≤ 2 ^ n := Nat.pow_le_pow_right (by decide) hn
  have hequal := h 0#n 0#n
  have hless := h 0#n 1#n
  have hgreater := h 1#n 0#n
  have hbelow := h (BitVec.allOnes n) 0#n
  have habove := h 0#n (BitVec.allOnes n)
  rw [always_eq hfield]
  simp only [Fires, hone, hpos, hzero, hmost, hneg, BitVec.toNat_ofNat, Nat.zero_mod,
    ← BitVec.toNat_inj] at hequal hless hgreater hbelow habove
  grind

theorem always_iff {field : Nat} (hfield : field < 32) {n : Nat} (hn : 1 < n) :
    always field = true ↔ ∀ a b : BitVec n, Fires field a b :=
  ⟨fun h => fires_of_always hfield h, always_of_fires hfield hn⟩

/-! ## The conditions that are emitted -/

/-- The bits of a signed order that trap. -/
def signedMask (field : Nat) : BitVec 64 :=
  orderMask field [(less, 8), (greater, 4), (equal, 2)]

/-- The bits of an unsigned order that trap. -/
def unsignedMask (field : Nat) : BitVec 64 :=
  orderMask field [(lessUnsigned, 8), (greaterUnsigned, 4)]

/-- Whether an order of two numbers has one of the bits of a mask. -/
def hits (v : Word) (mask : BitVec 64) (below above : Bool) : Bool :=
  (Interp.orderCode below above &&& mask.setWidth v.ty.bits) != 0

theorem hits_signed {field : Nat} (hfield : field < 32) (v : Word) (below above : Bool) :
    hits v (signedMask field) below above =
      if below then field.testBit 4 else if above then field.testBit 3 else field.testBit 2 := by
  revert field below above
  cases v <;> decide

theorem hits_unsigned {field : Nat} (hfield : field < 32) (v : Word) (below above : Bool) :
    hits v (unsignedMask field) below above =
      if below then field.testBit 1 else above && field.testBit 0 := by
  revert field below above
  cases v <;> decide

theorem hits_zero (v : Word) (below above : Bool) : hits v 0 below above = false := by
  cases v <;> cases below <;> cases above <;> rfl

/-- A field that selects anything has bits of an order. -/
theorem masks_ne_zero {field : Nat} (hfield : field < 32) (hne : field ≠ 0) :
    ¬(signedMask field = 0 ∧ unsignedMask field = 0) := by
  revert field
  decide

/-- Equality counts as a signed order. -/
theorem fires_iff_hits {field : Nat} (hfield : field < 32) (v : Word) (x y : BitVec v.ty.bits) :
    Fires field x y ↔
      (hits v (signedMask field) (x.toInt < y.toInt) (y.toInt < x.toInt) ||
        hits v (unsignedMask field) (x.toNat < y.toNat) (y.toNat < x.toNat)) = true := by
  rw [hits_signed hfield, hits_unsigned hfield, Fires, ← BitVec.toInt_inj]
  simp only [decide_eq_true_eq, Bool.or_eq_true, Bool.ite_eq_true_distrib, Bool.and_eq_true]
  have hsame : x.toInt = y.toInt ↔ x.toNat = y.toNat := by
    rw [BitVec.toInt_inj, BitVec.toNat_inj]
  grind

/-- The test of an order against a mask, where the mask has bits. -/
def conditions (v : Word) (order : Expr) (mask : BitVec 64) : List Expr :=
  if mask = 0 then []
  else [.bin (.cmpNE v.width) (.bin (.and v.width) order (FlagRule.lit v mask)) (FlagRule.lit v 0)]

section

variable {v : Word} {S : GuestState → Prop} {signed unsigned : Expr}

theorem knows_hit (hI : I.Integral) {e : Expr} {below above : Bool} (mask : BitVec 64)
    (he : c.Knows I S e ⟨v.ty, Interp.orderCode below above⟩) :
    c.Knows I S (.bin (.cmpNE v.width) (.bin (.and v.width) e (FlagRule.lit v mask))
      (FlagRule.lit v 0)) ⟨.i1, .ofBool (hits v mask below above)⟩ :=
  (he.and (Point.knows_lit v mask) hI.toBitwise).unequal (Point.knows_zero v) hI.toModular

/-- The tests that are emitted tell whether one of two orders has a bit of its mask. -/
theorem knows_conditions (hI : I.Integral) {s u : BitVec 64} {below above below' above' : Bool}
    (hsigned : c.Knows I S signed ⟨v.ty, Interp.orderCode below above⟩)
    (hunsigned : c.Knows I S unsigned ⟨v.ty, Interp.orderCode below' above'⟩)
    (hmasks : ¬(s = 0 ∧ u = 0)) :
    ∃ first rest, conditions v signed s ++ conditions v unsigned u = first :: rest ∧
      c.Knows I S (rest.foldl (.bin .or1) first)
        ⟨.i1, .ofBool (hits v s below above || hits v u below' above')⟩ := by
  have hs := knows_hit hI s hsigned
  have hu := knows_hit hI u hunsigned
  unfold conditions
  by_cases hs₀ : s = 0 <;> by_cases hu₀ : u = 0
  · exact absurd ⟨hs₀, hu₀⟩ hmasks
  · rw [if_pos hs₀, if_neg hu₀, hs₀, hits_zero, Bool.false_or]
    exact ⟨_, _, rfl, hu⟩
  · rw [if_neg hs₀, if_pos hu₀, hu₀, hits_zero, Bool.or_false]
    exact ⟨_, _, rfl, hs⟩
  · rw [if_neg hs₀, if_neg hu₀]
    exact ⟨_, _, rfl, .either hI hs hu⟩

end

/-- Numbers that are known are compared, and the exit is taken if the trap fires. -/
theorem emit_comes (hI : I.Integral) (hlayout : env.layout = env.arch) {field : Nat}
    (hfield : field < 32) {v : Word} {a b : Expr} {x y : BitVec v.ty.bits} {S : GuestState → Prop}
    (ha : c.Knows I S a ⟨v.ty, x⟩) (hb : c.Knows I S b ⟨v.ty, y⟩) (hS : S c.state)
    {f : Bool → Lift Unit} {φ : Prop} {Q : Continuation → Flow M → Prop}
    (hf : ∀ c' [Since c c'], c'.state = c.state → c'.memory = c.memory →
      Comes env I c' (f (always field)) φ fun next flow =>
        Q next (if Fires field x y then .left (env.exitTo I .sigTrap env.cia c.machine)
          else flow)) :
    Comes env I c (emit field v a b >>= f) φ Q := by
  unfold emit
  rw [bind_assoc]
  refine .give rfl ?_
  by_cases halways : always field = true
  · have hfires : Fires field x y := fires_of_always hfield halways x y
    simp only [halways, if_true, hfires] at hf ⊢
    rw [bind_assoc]
    refine .exit hlayout (b := true) (Knows.const (.u1 true)).always fun c' _ hmachine => ?_
    exact hf c' (congrArg Machine.state hmachine) (congrArg Machine.memory hmachine)
  rw [if_neg halways]
  simp only [Bool.not_eq_true] at halways
  rw [halways] at hf
  by_cases hzero : field = 0
  · have hnot : ¬Fires field x y := by simp [hzero, Fires]
    rw [if_pos hzero]
    refine .give rfl ((hf c rfl rfl).mono Iff.rfl fun next flow hQ => ?_)
    rwa [if_neg hnot] at hQ
  rw [if_neg hzero]
  simp only [bind_assoc]
  refine .bind (ha.has hS) fun a' c₁ _ hstate₁ hmemory₁ ha' => ?_
  refine .bind (hb.since.has (hstate₁ ▸ hS)) fun b' c₂ _ hstate₂ hmemory₂ hb' => ?_
  have hsigned : c₂.Knows I (fun _ => True) (.bin (.cmpORD v .signed) a' b')
      ⟨v.ty, Interp.orderCode (x.toInt < y.toInt) (y.toInt < x.toInt)⟩ :=
    ha'.since.bin hb' rfl (hI.cmpORD v .signed x y)
  refine .bind hsigned.always fun signed c₃ _ hstate₃ hmemory₃ hs => ?_
  have hunsigned : c₃.Knows I (fun _ => True) (.bin (.cmpORD v .unsigned) a' b')
      ⟨v.ty, Interp.orderCode (x.toNat < y.toNat) (y.toNat < x.toNat)⟩ := by
    refine (ha'.since.bin hb'.since rfl (hI.cmpORD v .unsigned x y)).congr ?_
    simp only [Sign.int, Nat.cast_lt]
    rfl
  refine .bind hunsigned.always fun unsigned c₄ _ hstate₄ hmemory₄ hu => ?_
  have hstate : c₄.state = c.state := by rw [hstate₄, hstate₃, hstate₂, hstate₁]
  have hmemory : c₄.memory = c.memory := by rw [hmemory₄, hmemory₃, hmemory₂, hmemory₁]
  obtain ⟨first, rest, htests, htest⟩ :=
    knows_conditions hI (hs.since (S := fun _ => True)) hu (masks_ne_zero hfield hzero)
  generalize hlist : (_ ++ _ : List Expr) = tests
  obtain rfl : tests = first :: rest := hlist.symm.trans htests
  simp only [bind_assoc]
  refine .exit hlayout htest.always fun c₅ _ hmachine => .give rfl ?_
  refine (hf c₅ ?_ ?_).mono Iff.rfl fun next flow hQ => ?_
  · exact (congrArg Machine.state hmachine).trans hstate
  · exact (congrArg Machine.memory hmachine).trans hmemory
  · rw [env.exitTo_congr hmemory hstate]
    rwa [if_congr (fires_iff_hits hfield v x y) rfl rfl] at hQ

end Trap

/-! ## The instructions -/

namespace Insn

/-- The trap instructions, by the width that they compare and by whether they compare two
registers. -/
inductive TrapForm (w : Insn) : Word → Bool → Prop where
  | tdi (hopcode : w.opcode = 2) : TrapForm w .w64 false
  | twi (hopcode : w.opcode = 3) : TrapForm w .w32 false
  | tw (hopcode : w.opcode = 31) (hxo : w.xo10 = 4) : TrapForm w .w32 true
  | td (hopcode : w.opcode = 31) (hxo : w.xo10 = 68) : TrapForm w .w64 true

/-- What a trap instruction compares its first register with. -/
def trapSource (w : Insn) (register : Bool) (arch : Arch) (order : ByteOrder) (σ : GuestState) :
    BitVec arch.word.ty.bits :=
  if register then σ.operand arch order w.rb else w.simm64.setWidth _

/-- Whether the trap of an instruction fires. -/
def Traps (w : Insn) (v : Word) (register : Bool) (arch : Arch) (order : ByteOrder)
    (σ : GuestState) : Prop :=
  Trap.Fires w.trapOn ((σ.operand arch order w.ra).setWidth v.ty.bits)
    ((w.trapSource register arch order σ).setWidth v.ty.bits)

instance (w : Insn) (v : Word) (register : Bool) (arch : Arch) (order : ByteOrder)
    (σ : GuestState) : Decidable (w.Traps v register arch order σ) :=
  inferInstanceAs (Decidable (Trap.Fires ..))

end Insn

namespace Trap

/-- The comparison of a trap instruction, and what follows it. -/
def test (w : Insn) (v : Word) (a b : Expr) : Lift Unit :=
  let stop (unconditional : Bool) : Lift Unit :=
    if unconditional then Lift.stopAtNext .boring else pure ()
  match v with
  | .w64 => emit w.trapOn .w64 a b >>= stop
  | .w32 => Lift.low32 a >>= fun a => Lift.low32 b >>= fun b => emit w.trapOn .w32 a b >>= stop

theorem lift_eq {v : Word} {register : Bool} (hform : w.TrapForm v register) :
    ∃ line, lift w =
      (if register then Lift.reservedClear w w.record "trap bit 31" else pure ()) >>= fun _ =>
        (if v = .w64 then Lift.needMode64 w "doubleword trap" else pure ()) >>= fun _ =>
          Lift.listed line >>= fun _ => Lift.getGpr w.ra >>= fun a =>
            (if register then Lift.getGpr w.rb else Lift.imm w.simm64) >>= test w v a := by
  unfold lift
  cases hform with
  | tdi hopcode =>
      simp only [hopcode]
      exact ⟨_, rfl⟩
  | twi hopcode =>
      simp only [hopcode]
      exact ⟨_, rfl⟩
  | tw hopcode hxo =>
      simp only [hopcode, hxo]
      exact ⟨_, rfl⟩
  | td hopcode hxo =>
      simp only [hopcode, hxo]
      exact ⟨_, rfl⟩

theorem test_comes (hI : I.Integral) (hlayout : env.layout = env.arch) {v : Word}
    (hmode : v = .w64 → env.arch = .ppc64) {a b : Expr} {x y : BitVec env.arch.word.ty.bits}
    {S : GuestState → Prop} (ha : c.Knows I S a ⟨env.arch.word.ty, x⟩)
    (hb : c.Knows I S b ⟨env.arch.word.ty, y⟩) (hS : S c.state)
    (hnext : c.progress.next = .continue) :
    Comes env I c (test w v a b) False fun next flow =>
      next = (if always w.trapOn then .stop .boring else .continue) ∧
        env.leave I next flow =
          if Fires w.trapOn (x.setWidth v.ty.bits) (y.setWidth v.ty.bits) then
            env.exitTo I .sigTrap env.cia c.machine
          else ⟨env.nia, .boring, c.memory, c.state⟩ := by
  have hfield : w.trapOn < 32 := w.bits_lt 21 5
  have hstop : ∀ c' [Since c c'], c'.state = c.state → c'.memory = c.memory →
      Comes env I c' (if always w.trapOn then Lift.stopAtNext .boring else pure ()) False
        fun next flow => next = (if always w.trapOn then .stop .boring else .continue) ∧
          env.leave I next (if Fires w.trapOn (x.setWidth v.ty.bits) (y.setWidth v.ty.bits) then
            .left (env.exitTo I .sigTrap env.cia c.machine) else flow) =
          if Fires w.trapOn (x.setWidth v.ty.bits) (y.setWidth v.ty.bits) then
            env.exitTo I .sigTrap env.cia c.machine
          else ⟨env.nia, .boring, c.memory, c.state⟩ := by
    intro c' _ hstate hmemory
    by_cases halways : always w.trapOn = true
    · have hfires := fires_of_always hfield halways (x.setWidth v.ty.bits) (y.setWidth v.ty.bits)
      simp only [halways, if_true, hfires]
      exact .stopAtNext hlayout ⟨rfl, rfl⟩
    · simp only [if_neg halways]
      refine .done (Since.next_eq hnext) ⟨rfl, ?_⟩
      split
      · rfl
      · rw [← hstate, ← hmemory]
        rfl
  cases v with
  | w32 =>
      refine .give rfl (.give rfl ?_)
      exact emit_comes hI hlayout hfield (ha.low32 hI.toBitwise) (hb.low32 hI.toBitwise) hS hstop
  | w64 =>
      have ha' := ha.congr (Value.double_eq (hmode rfl) x)
      have hb' := hb.congr (Value.double_eq (hmode rfl) y)
      exact emit_comes hI hlayout hfield ha' hb' hS hstop

theorem lift_comes (hI : I.Integral) (hlayout : env.layout = env.arch) {v : Word}
    {register : Bool} (hform : w.TrapForm v register) (hnext : c.progress.next = .continue) :
    Comes env I c (lift w)
      ((register = true ∧ w.record = true) ∨ (v = .w64 ∧ env.arch = .ppc32) ∨ False)
      fun next flow => next = (if always w.trapOn then .stop .boring else .continue) ∧
        env.leave I next flow = if w.Traps v register env.arch I.order c.state then
            env.exitTo I .sigTrap env.cia c.machine
          else ⟨env.nia, .boring, c.memory, c.state⟩ := by
  obtain ⟨line, hlift⟩ := lift_eq hform
  rw [hlift]
  refine .guard (.when fun _ => Lift.reservedClear_refuses w _ _) fun _ => ?_
  refine .guard (.when fun _ => Lift.needMode64_refuses w _) fun hmode => ?_
  refine .listed fun c' _ hmachine => .give (exec_getGpr hlayout w.ra_lt) ?_
  have hword : v = .w64 → env.arch = .ppc64 := by
    intro hv
    cases harch : env.arch with
    | ppc32 => exact absurd ⟨hv, harch⟩ hmode
    | ppc64 => rfl
  have hleave : c'.state = c.state ∧ c'.memory = c.memory :=
    ⟨congrArg Machine.state hmachine, congrArg Machine.memory hmachine⟩
  rw [← hmachine, ← hleave.1, ← hleave.2]
  have ha : c'.Knows I (· = c'.state) (.gpr env.arch w.ra) _ := Point.knows_gpr env.arch w.ra
  cases register with
  | true =>
      exact .give (exec_getGpr hlayout w.rb_lt)
        (test_comes hI hlayout hword ha (Point.knows_gpr env.arch w.rb) rfl (Since.next_eq hnext))
  | false =>
      exact .give rfl
        (test_comes hI hlayout hword ha (Point.knows_imm w.simm64) rfl (Since.next_eq hnext))

end Trap

theorem Insn.TrapForm.route {v : Word} {register : Bool} (hform : w.TrapForm v register)
    (g : Guest) : ∃ route, Route.find? w = some route ∧ route.family = .trap ∧
      (route.Closed g → v = .w64 ∧ g.arch = .ppc32) ∧ w.opcode ≠ 21 ∧ w.opcode ≠ 30 := by
  cases hform with
  | tdi hopcode =>
      exact ⟨_, Route.find?_only (by rw [hopcode]; rfl), rfl,
        fun h => ⟨rfl, (Route.closed_mode64 g).mp h⟩, by simp [hopcode]⟩
  | twi hopcode =>
      exact ⟨_, Route.find?_only (by rw [hopcode]; rfl), rfl,
        fun h => absurd h (Route.not_closed g), by simp [hopcode]⟩
  | tw hopcode hxo | td hopcode hxo =>
      obtain ⟨_, hroute⟩ : ∃ pattern, Route.find? w = some ⟨pattern, [], .trap⟩ :=
        Route.find?_form hopcode hxo (by decide)
      exact ⟨_, hroute, rfl, fun h => absurd h (Route.not_closed g), by simp [hopcode]⟩

/-- How a trap instruction at an address is left: by the trap, back to itself, or else behind it.
Nothing but the instruction address has changed. -/
def Guest.leavesTrap (g : Guest) (I : Interp M) (w : Insn) (v : Word) (register : Bool)
    (cia : BitVec 64) (m : Machine M) : Left M :=
  if w.Traps v register g.arch I.order m.state then (g.env cia cia).exitTo I .sigTrap cia m
  else ⟨(g.env cia cia).nia, .boring, m.memory, m.state⟩

/-- A trap instruction leaves through the trap if and only if one of the relations that its field
selects holds, and changes nothing. It ends the block if and only if the relations hold between any
two numbers. -/
theorem Guest.traps_taken (g : Guest) {v : Word} {register : Bool}
    (hform : w.TrapForm v register) (hI : I.Integral) :
    g.Performs w I ((register = true ∧ w.record = true) ∨ (v = .w64 ∧ g.arch = .ppc32))
      (fun cia next m out => out = g.leavesTrap I w v register cia m ∧
        next = if Trap.always w.trapOn then .stop .boring else .continue) ∧
    (Trap.always w.trapOn = true ↔ ∀ a b : BitVec v.ty.bits, Trap.Fires w.trapOn a b) := by
  refine ⟨?_, Trap.always_iff (w.bits_lt 21 5) v.one_lt_bits⟩
  obtain ⟨route, hroute, hfamily, hclosed, hopcode⟩ := hform.route g
  refine Guest.performs hroute hopcode
    ((register = true ∧ w.record = true) ∨ (v = .w64 ∧ g.arch = .ppc32) ∨ False)
    (by rw [or_false, or_iff_right_of_imp fun h => .inr (hclosed h)])
    fun env c hlayout henv hnext => ?_
  obtain ⟨cia, blockStart, rfl⟩ := henv
  rw [hfamily]
  exact (Trap.lift_comes hI hlayout hform hnext).mono Iff.rfl fun _ _ h => ⟨h.2, h.1⟩

/-- A machine in which the low word of general register 3 is minus one, and register 4 is one. -/
def comparing : Machine Unit :=
  .start () fun o => if 28 ≤ o ∧ o < 32 then 0xFF else if o = 39 then 1 else 0

/-- The code of `tw 1,r3,r4` on a 64-bit processor traps, as the first word is the greater unsigned
number. -/
theorem Guest.traps_taken_words :
    ∃ ss, (Guest.lift { arch := .ppc64 } ⟨#[0x7C, 0x23, 0x20, 0x08]⟩ 0 0x1000 0x1000
      (.empty 0)).block.stmts.toList = ss ∧
      (Guest.env { arch := .ppc64 } 0x1000 0x1000).leave (.integral .big) .continue
        (runAll (.integral .big) #[] ss comparing) =
          ⟨0x1000, .sigTrap, (), comparing.state.withAddress .ppc64 .big 0x1000⟩ := by
  obtain ⟨hperforms, -⟩ := Guest.traps_taken { arch := .ppc64 } (w := ⟨0x7C232008⟩)
    (.tw (by decide) (by decide)) (Interp.integral_integral .big)
  obtain ⟨next, ss, -, hstmts, hleft, hnext⟩ :=
    hperforms.exists_run (by decide) ⟨#[0x7C, 0x23, 0x20, 0x08]⟩ (by decide) (by decide) 0x1000
      comparing
  obtain rfl : next = .continue := hnext.trans (by decide +kernel)
  have hfires : Insn.Traps ⟨0x7C232008⟩ .w32 true .ppc64 .big comparing.state := by decide +kernel
  refine ⟨ss, hstmts, hleft.trans ?_⟩
  exact (if_pos hfires).trans rfl

end PowerLift
