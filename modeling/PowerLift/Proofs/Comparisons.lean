import PowerLift.Proofs.Branches
import PowerLift.Proofs.IntegerForms
import PowerLift.Proofs.StatusMoves

/-!
# Comparisons of integers

A comparison of two numbers leaves their order in a condition field, with the summary overflow. The
order goes to one byte as a code with a single bit, and the summary overflow to another.
-/

namespace PowerLift

open CrWord (bit field withField)
open Layout (specialOffset InField)
open Lift (exec)
open Point (Has Step Since)
open PowerLift.Expr (un bin)

variable {M : Type} {I : Interp M} {env : Env} {c : Point M} {w : Insn}

/-! ## What a comparison finds -/

/-- The order of two numbers, and the summary overflow. -/
structure Verdict where
  order : Ordering
  overflowed : Bool

namespace Verdict

/-- The bits of a condition field, in which the most significant is the first. -/
def bit (v : Verdict) : Nat → Bool
  | 0 => v.order == .lt
  | 1 => v.order == .gt
  | 2 => v.order == .eq
  | _ => v.overflowed

/-- All four bits. -/
def nibble (v : Verdict) : BitVec 4 := .ofBoolListBE [v.bit 0, v.bit 1, v.bit 2, v.bit 3]

/-- The byte that holds the order. -/
def orderByte (v : Verdict) : BitVec 8 := Interp.orderCode (v.order == .lt) (v.order == .gt)

theorem getMsbD_nibble (v : Verdict) : ∀ k < 4, v.nibble.getMsbD k = v.bit k := by
  obtain ⟨order, overflowed⟩ := v
  cases order <;> cases overflowed <;> decide

/-- Of less, greater and equal, one holds. -/
theorem bit_unique (v : Verdict) : ∃! k, k < 3 ∧ v.bit k = true := by
  obtain ⟨order, overflowed⟩ := v
  cases order with
  | lt => exact ⟨0, ⟨by decide, rfl⟩, fun k ⟨hk, hbit⟩ => by interval_cases k <;> simp_all [bit]⟩
  | gt => exact ⟨1, ⟨by decide, rfl⟩, fun k ⟨hk, hbit⟩ => by interval_cases k <;> simp_all [bit]⟩
  | eq => exact ⟨2, ⟨by decide, rfl⟩, fun k ⟨hk, hbit⟩ => by interval_cases k <;> simp_all [bit]⟩

/-- The bits that count of the two bytes. -/
theorem nibble_eq (v : Verdict) :
    (((v.orderByte &&& 0xE) ||| (flagByte v.overflowed &&& 1)).setWidth 4 : BitVec 4) = v.nibble := by
  obtain ⟨order, overflowed⟩ := v
  cases order <;> cases overflowed <;> decide

/-- The bytes that the four bits are split into. -/
theorem split_nibble (v : Verdict) :
    ((v.nibble.setWidth 32 &&& 0xE).setWidth 8 : BitVec 8) = v.orderByte ∧
      ((v.nibble.setWidth 32 &&& 1).setWidth 8 : BitVec 8) = flagByte v.overflowed := by
  obtain ⟨order, overflowed⟩ := v
  cases order <;> cases overflowed <;> decide

end Verdict

/-- A code has the bits of an order. -/
theorem Interp.orderCode_compare {n : Nat} (x y : Int) :
    (orderCode (decide (x < y)) (decide (y < x)) : BitVec n) =
      orderCode (compare x y == .lt) (compare x y == .gt) := by
  have hless : decide (x < y) = (compare x y == .lt) := by
    rw [Bool.eq_iff_iff, decide_eq_true_iff, beq_iff_eq, compare_lt_iff_lt]
  have hgreater : decide (y < x) = (compare x y == .gt) := by
    rw [Bool.eq_iff_iff, decide_eq_true_iff, beq_iff_eq, compare_gt_iff_gt]
  rw [hless, hgreater]

namespace GuestState

variable {arch : Arch} {σ : GuestState} {f : Nat}

/-- The state with the outcome of a comparison in a condition field. -/
def withVerdict (arch : Arch) (σ : GuestState) (f : Nat) (v : Verdict) : GuestState :=
  σ.withCrBytes arch f v.orderByte (flagByte v.overflowed)

theorem field_withVerdict (hf : f < 8) (v : Verdict) :
    field ((σ.withVerdict arch f v).cr arch) f = v.nibble := by
  rw [field_cr hf, withVerdict, crField_withCrBytes, if_pos rfl, v.nibble_eq]

end GuestState

/-- A bit of a field. -/
theorem CrWord.bit_field {f k : Nat} (hf : f < 8) (hk : k < 4) (x : BitVec 32) :
    bit x (4 * f + k) = (field x f).getMsbD k := by
  rw [bit_eq (by omega), BitVec.getMsbD_eq_getLsbD, decide_eq_true hk, Bool.true_and,
    getLsbD_field (by omega)]
  congr 1
  omega

theorem GuestState.bit_withVerdict {arch : Arch} {σ : GuestState} {f k : Nat} (hf : f < 8)
    (hk : k < 4) (v : Verdict) : bit ((σ.withVerdict arch f v).cr arch) (4 * f + k) = v.bit k := by
  rw [CrWord.bit_field hf hk, field_withVerdict hf, v.getMsbD_nibble k hk]

/-! ## Instructions -/

namespace Insn

/-- The comparisons, by sign and by whether they compare two registers. -/
inductive CompareForm (w : Insn) : Sign → Bool → Prop where
  | cmpi (hopcode : w.opcode = 11) : CompareForm w .signed false
  | cmpli (hopcode : w.opcode = 10) : CompareForm w .unsigned false
  | cmp (hopcode : w.opcode = 31) (hxo : w.xo10 = 0) : CompareForm w .signed true
  | cmpl (hopcode : w.opcode = 31) (hxo : w.xo10 = 32) : CompareForm w .unsigned true

/-- The words that are no comparisons. -/
def CompareRefused (w : Insn) (register : Bool) (arch : Arch) : Prop :=
  w.slice 9 1 ≠ 0 ∨ (w.lBit = true ∧ arch = .ppc32) ∨ (register = true ∧ w.record = true)

instance (w : Insn) (register : Bool) (arch : Arch) : Decidable (w.CompareRefused register arch) :=
  inferInstanceAs (Decidable (_ ∨ _))

/-- The literal of a comparison, extended with its sign or with zeros. -/
def compareLiteral (w : Insn) : Sign → BitVec 64
  | .signed => w.simm64
  | .unsigned => .ofNat 64 w.uimm16

/-- What a comparison compares its first register with. -/
def compareSource (w : Insn) (s : Sign) (register : Bool) (arch : Arch) (order : ByteOrder)
    (σ : GuestState) : BitVec arch.word.ty.bits :=
  if register then σ.operand arch order w.rb else (w.compareLiteral s).setWidth _

/-- The width at which a comparison reads its operands. -/
def compareWord (w : Insn) : Word := if w.lBit then .w64 else .w32

/-- What a comparison finds in a state. -/
def verdict (w : Insn) (s : Sign) (register : Bool) (arch : Arch) (order : ByteOrder)
    (σ : GuestState) : Verdict where
  order := compare
    (s.int ((σ.operand arch order w.ra).setWidth w.compareWord.ty.bits))
    (s.int ((w.compareSource s register arch order σ).setWidth w.compareWord.ty.bits))
  overflowed := σ.summaryOverflow arch

end Insn

/-! ## Steps -/

namespace Comes

variable {φ : Prop} {Q : Continuation → Flow M → Prop} {f : Unit → Lift Unit}

/-- An order comes into a condition field, with the summary overflow. -/
theorem setCrOrdering (hI : I.Bitwise) (hlayout : env.layout = env.arch) {i : Nat} (hi : i < 8)
    {e : Expr} {x : BitVec 8} (he : c.Has I e (.i8 x))
    (hf : ∀ c' [Since c c'], c'.state = c.state.withCrBytes env.arch i x
      (flagByte (c.state.summaryOverflow env.arch)) → c'.memory = c.memory →
      Comes env I c' (f ()) φ Q) :
    Comes env I c (Lift.setCrOrdering i e >>= f) φ Q := by
  unfold Lift.setCrOrdering
  simp only [bind_assoc]
  refine .put (Layout.cr321_eq env.layout hi) he rfl fun c₁ _ hstate₁ hmemory₁ => .give rfl ?_
  -- The summary overflow is not among the bytes that were written.
  have hso : c₁.state (specialOffset env.layout .xerSo) =
      c.state (specialOffset env.layout .xerSo) := by
    rw [hstate₁]
    refine (GuestState.write_i8 _ _).trans (if_neg ?_)
    have hbelow := GuestState.special_below env.layout .xerSo
    simp only
    omega
  have hflag : c₁.Knows I (· = c₁.state) _ _ := Point.knows_flag hI env.layout .xerSo
  rw [hso] at hflag
  refine .put (Layout.cr0_eq env.layout hi) (hflag.has rfl) rfl fun c₂ _ hstate₂ hmemory₂ => ?_
  refine hf c₂ ?_ (hmemory₂.trans hmemory₁)
  rw [hstate₂, hstate₁, ← hlayout]
  exact GuestState.write_field env.layout c.state I.order i x _

/-- The order of two numbers comes into a condition field. -/
theorem setCrFromOrder (hI : I.Bitwise) (hlayout : env.layout = env.arch) {i : Nat} (hi : i < 8)
    {v : Word} {e : Expr} {o : Ordering}
    (he : c.Has I e ⟨v.ty, Interp.orderCode (o == .lt) (o == .gt)⟩)
    (hf : ∀ c' [Since c c'], c'.state = c.state.withVerdict env.arch i
      ⟨o, c.state.summaryOverflow env.arch⟩ → c'.memory = c.memory → Comes env I c' (f ()) φ Q) :
    Comes env I c (Lift.setCrFromOrder i e >>= f) φ Q := by
  have hcode (n : Nat) (hn : n = 32 ∨ n = 64) :
      (Interp.orderCode (o == .lt) (o == .gt) : BitVec n).setWidth 8 =
        Interp.orderCode (o == .lt) (o == .gt) := by
    rcases hn with rfl | rfl <;> cases o <;> rfl
  unfold Lift.setCrFromOrder
  rw [bind_assoc]
  refine .give he.typeOf ?_
  cases v with
  | w32 =>
      have hbyte := (he.un rfl (hI.cast .low32to8 rfl .i32 rfl _)).congr
        (congrArg (Value.mk .i8) (hcode 32 (.inl rfl)))
      exact setCrOrdering hI hlayout hi hbyte hf
  | w64 =>
      have hbyte := (he.un rfl (hI.cast .low64to8 rfl .i64 rfl _)).congr
        (congrArg (Value.mk .i8) (hcode 64 (.inr rfl)))
      exact setCrOrdering hI hlayout hi hbyte hf

end Comes

namespace Comparison

/-- The end of a comparison: the operands are compared at its width. -/
def order (w : Insn) (s : Sign) (a b : Expr) : Lift Unit :=
  if w.lBit then Lift.bind (bin (.cmpORD .w64 s) a b) >>= Lift.setCrFromOrder w.crfd
  else Lift.low32 a >>= fun a => Lift.low32 b >>= fun b =>
    Lift.bind (bin (.cmpORD .w32 s) a b) >>= Lift.setCrFromOrder w.crfd

theorem compare_eq {s : Sign} {register : Bool} (hform : w.CompareForm s register) :
    ∃ line, lift w = Lift.reservedZero w (w.slice 9 1) "compare bit 9" >>= fun _ =>
      Lift.mode64 >>= fun mode64 =>
        Lift.invalidIf w (w.lBit && !mode64) "64-bit compare in 32-bit mode" >>= fun _ =>
          Lift.getGpr w.ra >>= fun a =>
            (if register then Lift.reservedClear w w.record "compare Rc" else pure ()) >>= fun _ =>
              Lift.listed line >>= fun _ =>
                (if register then Lift.getGpr w.rb else Lift.imm (w.compareLiteral s)) >>=
                  order w s a := by
  unfold lift
  cases hform with
  | cmpi hopcode | cmpli hopcode =>
      rw [hopcode]
      simp only [compare, hopcode, pure_bind]
      exact ⟨_, rfl⟩
  | cmp hopcode hxo | cmpl hopcode hxo =>
      rw [hopcode, hxo]
      simp only [compare, hopcode, hxo, pure_bind]
      exact ⟨_, rfl⟩

/-- How a comparison is left. -/
def left (env : Env) (I : Interp M) (w : Insn) (s : Sign) (register : Bool) (m : Machine M) :
    Left M :=
  ⟨env.nia, .boring, m.memory, m.state.withVerdict env.arch w.crfd
    (w.verdict s register env.arch I.order m.state)⟩

theorem order_comes (hI : I.Integral) (hlayout : env.layout = env.arch)
    (hmode : w.lBit = true → env.arch = .ppc64) (s : Sign) {a b : Expr}
    {x y : BitVec env.arch.word.ty.bits} {S : GuestState → Prop}
    (ha : c.Knows I S a ⟨env.arch.word.ty, x⟩) (hb : c.Knows I S b ⟨env.arch.word.ty, y⟩)
    (hS : S c.state) (hnext : c.progress.next = .continue) {out : Left M}
    (hout : (⟨env.nia, .boring, c.memory, c.state.withVerdict env.arch w.crfd
      ⟨Ord.compare (s.int (x.setWidth w.compareWord.ty.bits))
        (s.int (y.setWidth w.compareWord.ty.bits)), c.state.summaryOverflow env.arch⟩⟩ : Left M) =
      out) :
    Comes env I c (order w s a b) False fun next flow =>
      next = .continue ∧ env.leave I next flow = out := by
  have hcrfd : w.crfd < 8 := w.bits_lt 23 3
  have hend {v : Word} (hv : w.compareWord = v) {e : Expr}
      (he : c.Has I e ⟨v.ty, Interp.orderCode
        (s.int (x.setWidth v.ty.bits) < s.int (y.setWidth v.ty.bits))
        (s.int (y.setWidth v.ty.bits) < s.int (x.setWidth v.ty.bits))⟩) :
      Comes env I c (Lift.bind e >>= Lift.setCrFromOrder w.crfd) False fun next flow =>
        next = .continue ∧ env.leave I next flow = out := by
    rw [Interp.orderCode_compare] at he
    refine .bind he fun t c₁ _ hstate₁ hmemory₁ ht => .last ?_
    refine .setCrFromOrder hI.toBitwise hlayout hcrfd ht.always fun c₂ _ hstate₂ hmemory₂ => ?_
    have : Since c c₂ := Since.trans c₁
    refine .done (Since.next_eq hnext) ⟨rfl, ?_⟩
    rw [← hout, hv, ← hstate₁, ← hstate₂, ← hmemory₁, ← hmemory₂]
    rfl
  unfold order
  cases hl : w.lBit with
  | true =>
      have hword : w.compareWord = .w64 := if_pos hl
      have harch := hmode hl
      refine hend hword (Point.Knows.has ?_ hS)
      exact (ha.congr (Value.double_eq harch x)).bin (hb.congr (Value.double_eq harch y)) rfl
        (hI.cmpORD .w64 s _ _)
  | false =>
      have hword : w.compareWord = .w32 := if_neg (by simp [hl])
      refine .give rfl (.give rfl ?_)
      refine hend hword (Point.Knows.has ?_ hS)
      exact (ha.low32 hI.toBitwise).bin (hb.low32 hI.toBitwise) rfl (hI.cmpORD .w32 s _ _)

theorem lift_comes (hI : I.Integral) (hlayout : env.layout = env.arch) {s : Sign} {register : Bool}
    (hform : w.CompareForm s register) (hnext : c.progress.next = .continue) :
    Comes env I c (lift w) (w.CompareRefused register env.arch) fun next flow =>
      next = .continue ∧ env.leave I next flow = left env I w s register c.machine := by
  have hwide : (w.lBit && !env.arch.is64) = true ↔ w.lBit = true ∧ env.arch = .ppc32 := by
    cases w.lBit <;> cases env.arch <;> decide
  have hrefused : (w.slice 9 1 ≠ 0 ∨ (w.lBit && !env.arch.is64) = true ∨
      (register = true ∧ w.record = true) ∨ False) ↔ w.CompareRefused register env.arch := by
    rw [Insn.CompareRefused, hwide, or_false]
  obtain ⟨line, hcode⟩ := compare_eq hform
  rw [hcode]
  refine Comes.congr ?_ hrefused
  refine .guard (Lift.reservedZero_refuses w _ _) fun _ => .give rfl ?_
  refine .guard (Lift.invalidIf_refuses w _ _) fun hmode => ?_
  refine .give (exec_getGpr hlayout w.ra_lt) ?_
  refine .guard (.when fun _ => Lift.reservedClear_refuses w _ _) fun _ => ?_
  refine .listed fun c₁ _ hmachine₁ => ?_
  have hlong : w.lBit = true → env.arch = .ppc64 := by
    intro hl
    rw [hwide] at hmode
    cases harch : env.arch with
    | ppc32 => exact absurd ⟨hl, harch⟩ hmode
    | ppc64 => rfl
  rw [← hmachine₁]
  have ha : c₁.Knows I (· = c₁.state) (.gpr env.arch w.ra) _ := Point.knows_gpr env.arch w.ra
  cases register with
  | true =>
      exact .give (exec_getGpr hlayout w.rb_lt) (order_comes hI hlayout hlong s ha
        (Point.knows_gpr env.arch w.rb) rfl (Since.next_eq hnext) rfl)
  | false =>
      exact .give rfl (order_comes hI hlayout hlong s ha (Point.knows_imm (w.compareLiteral s)) rfl
        (Since.next_eq hnext) rfl)

end Comparison

/-! ## Whole instructions -/

theorem Insn.CompareForm.route {s : Sign} {register : Bool} (hform : w.CompareForm s register)
    (g : Guest) : ∃ route, Route.find? w = some route ∧ route.family = .comparison ∧
      ¬route.Closed g ∧ w.opcode ≠ 21 ∧ w.opcode ≠ 30 := by
  cases hform with
  | cmpi hopcode | cmpli hopcode =>
      exact ⟨_, Route.find?_only (by rw [hopcode]; rfl), rfl, Route.not_closed g, by simp [hopcode]⟩
  | cmp hopcode hxo | cmpl hopcode hxo =>
      obtain ⟨_, hroute⟩ : ∃ pattern, Route.find? w = some ⟨pattern, [], .comparison⟩ :=
        Route.find?_form hopcode hxo (by decide)
      exact ⟨_, hroute, rfl, Route.not_closed g, by simp [hopcode]⟩

/-- A comparison leaves the order of its operands in its condition field, with the summary
overflow, wherever it stands. Nothing else changes. -/
theorem Guest.compare_performs (g : Guest) (hI : I.Integral) {s : Sign} {register : Bool}
    (hform : w.CompareForm s register) :
    g.Performs w I (w.CompareRefused register g.arch) fun cia next m out =>
      next = .continue ∧ out = Comparison.left (g.env cia cia) I w s register m := by
  obtain ⟨route, hroute, hfamily, hopen, hopcode⟩ := hform.route g
  refine Guest.performs hroute hopcode _ (or_iff_right hopen) fun env c hlayout henv hnext => ?_
  obtain ⟨cia, blockStart, rfl⟩ := henv
  rw [hfamily]
  exact Comparison.lift_comes hI hlayout hform hnext

end PowerLift
