import PowerLift.Proofs.BitSteps
import PowerLift.Proofs.Rotations
import PowerLift.Proofs.Transfers

/-!
# Bit counts, parities and gathered bits

The instructions that look at single bits or bytes of a register leave what these say in another
one, in every mode that has them.
-/

namespace PowerLift

open Lift (exec)
open Point (Has Knows Step Since)
open PowerLift.Expr (un bin)

variable {M : Type} {I : Interp M} {env : Env} {c : Point M} {w : Insn}

/-! ## What the instructions compute -/

/-- The instructions that look at the bits or bytes of registers. -/
inductive BitOp where
  /-- How many zeros lead or trail in a word or doubleword. -/
  | zeros (v : Word) (leading : Bool)
  /-- A narrow number extended with its sign. -/
  | extend (width : Width)
  /-- How many bits are set in each group. -/
  | ones (width : Width)
  /-- The parities of the low bits of bytes. -/
  | parity (v : Word)
  /-- Eight bits of one register, chosen by the bytes of another. -/
  | gather
  /-- Where the bytes of two registers agree. -/
  | equalBytes
  deriving DecidableEq

namespace BitOp

/-- The instructions by their extended opcodes. -/
def ofXo10? : Nat → Option BitOp
  | 26 => some (.zeros .w32 true)
  | 538 => some (.zeros .w32 false)
  | 58 => some (.zeros .w64 true)
  | 570 => some (.zeros .w64 false)
  | 954 => some (.extend .w8)
  | 922 => some (.extend .w16)
  | 986 => some (.extend .w32)
  | 122 => some (.ones .w8)
  | 378 => some (.ones .w32)
  | 506 => some (.ones .w64)
  | 154 => some (.parity .w32)
  | 186 => some (.parity .w64)
  | 252 => some .gather
  | 508 => some .equalBytes
  | _ => none

/-- What an instruction asks of a guest. -/
def gates : BitOp → List Gate
  | zeros v leading => (if leading then [] else [.isa30]) ++ if v = .w64 then [.mode64] else []
  | extend .w32 | ones .w64 | parity .w64 | gather => [.mode64]
  | _ => []

/-- An instruction sets bits that are reserved. -/
def Reserved (w : Insn) : BitOp → Prop
  | zeros _ _ | extend _ => w.rb ≠ 0
  | ones _ | parity _ => w.rb ≠ 0 ∨ w.record = true
  | gather | equalBytes => w.record = true

/-- The result `x` is what the bits of the operands `s` and `b` say. -/
def Gives {n : Nat} (s b x : BitVec n) : BitOp → Prop
  | zeros v leading => ∃ k, ZeroRun leading (s.setWidth v.bits) k ∧ x = .ofNat n k
  | extend width => x = (s.setWidth width.bits).signExtend n
  | ones width => Lanewise width.bits BitVec.cpop s x
  | parity v => Lanewise v.bits (fun y => truthWord _ (oddBytes y)) s x
  | gather => ∀ t, x.getLsbD t =
      (decide (t < 8) && b.getMsbD (s.extractLsb' (8 * t) 8).toNat)
  | equalBytes => ∀ i, 8 * (i + 1) ≤ n → x.extractLsb' (8 * i) 8 =
      if s.extractLsb' (8 * i) 8 = b.extractLsb' (8 * i) 8 then 0xFF else 0

end BitOp

/-- A word is the instruction `op`. -/
def Insn.BitForm (w : Insn) (op : BitOp) : Prop :=
  w.opcode = 31 ∧ BitOp.ofXo10? w.xo10 = some op

/-! ## Results -/

/-- The code behind a point leaves memory alone, and in the guest state a result with its
comparison. -/
def Leaves (env : Env) (I : Interp M) (c : Point M) (w : Insn)
    (P : BitVec env.arch.word.ty.bits → Prop) (next : Continuation) (flow : Flow M) : Prop :=
  next = .continue ∧ ∃ m x, flow = .behind m ∧ m.memory = c.memory ∧ P x ∧
    m.state = c.state.after env.arch I.order w.ra { result := x, record := w.record }

/-- What is left behind a point with the same state and memory. -/
theorem Leaves.of_eq {c' : Point M} {P : BitVec env.arch.word.ty.bits → Prop} {next : Continuation}
    {flow : Flow M} (hstate : c'.state = c.state) (hmemory : c'.memory = c.memory)
    (h : Leaves env I c' w P next flow) : Leaves env I c w P next flow := by
  obtain ⟨hnext, m, x, hflow, hkept, hx, hafter⟩ := h
  exact ⟨hnext, m, x, hflow, hkept.trans hmemory, hx, hstate ▸ hafter⟩

namespace Comparison

/-- Both registers are compared byte by byte. -/
theorem compareBytes_comes (hI : I.Integral) (hlayout : env.layout = env.arch)
    (hnext : c.progress.next = .continue) :
    Comes env I c (compareBytes w) (w.record = true) (Leaves env I c w fun z =>
      BitOp.equalBytes.Gives (c.state.operand env.arch I.order w.rs)
        (c.state.operand env.arch I.order w.rb) z) := by
  unfold compareBytes
  refine (Comes.guard (Lift.reservedClear_refuses w _ _) fun hrecord => ?_).congr
    (iff_of_eq (or_false _))
  refine .noted fun c₁ _ hstate₁ hmemory₁ => .give rfl (.give (exec_getGpr hlayout w.rd_lt) ?_)
  refine .bind ((Point.knows_gpr env.arch w.rs).has rfl) fun s c₂ _ hstate₂ hmemory₂ hs => ?_
  refine .give (exec_getGpr hlayout w.rb_lt) ?_
  refine .bind ((Point.knows_gpr env.arch w.rb).has rfl) fun b c₃ _ hstate₃ hmemory₃ hb => ?_
  rw [hstate₁] at hs hstate₂
  rw [hstate₂] at hb hstate₃
  have hbits : env.arch.word.ty.bits = 8 * env.arch.wordBytes := by cases env.arch <;> rfl
  obtain ⟨z, hz, hagreed⟩ := lanes_knows (S := fun _ => True) hI hs.since hb hbits.ge
  refine .last (.putGpr hlayout w.ra_lt hz.always fun c₄ _ hstate₄ hmemory₄ => ?_)
  rw [hstate₃] at hstate₄
  refine .done (Since.next_eq hnext) ⟨rfl, c₄.machine, z, rfl, ?_, fun i hi => ?_, ?_⟩
  · exact hmemory₄.trans (hmemory₃.trans (hmemory₂.trans hmemory₁))
  · exact hagreed.bytes hbits.le hi
  · rw [Bool.eq_false_iff.mpr hrecord]
    exact hstate₄

end Comparison

namespace Logic

/-- A result that was staged is left in its register. -/
theorem finish_comes (hI : I.Integral) (hlayout : env.layout = env.arch)
    (hnext : c.progress.next = .continue) {P : BitVec env.arch.word.ty.bits → Prop} {x : Lift Expr}
    (hx : Reaches env I c x fun e c' => c'.state = c.state ∧ ∃ y,
      (∀ {S}, c'.Knows I S e ⟨env.arch.word.ty, y⟩) ∧ P y) :
    Comes env I c (x >>= finish w) False (Leaves env I c w P) := by
  refine .of_reaches hnext (hx.seq fun e c' _ ⟨hstate, y, hy, hP⟩ => ?_)
  have hleft : Reaches env I c' (finish w e) fun _ c'' => c''.state =
      c'.state.after env.arch I.order w.ra { result := y, record := w.record } :=
    finish_reaches (S := fun _ => True) hI hlayout hy trivial rfl
  refine hleft.mono fun _ c'' hafter hmemory => ?_
  exact ⟨rfl, c''.machine, y, rfl, hmemory, hP, hstate ▸ hafter⟩

section

variable (hI : I.Counting) (hlayout : env.layout = env.arch) (hnext : c.progress.next = .continue)
  {s : Expr} {x : BitVec env.arch.word.ty.bits} {P : BitVec env.arch.word.ty.bits → Prop}

include hI hlayout hnext

/-- A result that is known already. -/
theorem known_comes {e : Expr} {y : BitVec env.arch.word.ty.bits}
    (he : c.Has I e ⟨env.arch.word.ty, y⟩) (hP : P y) :
    Comes env I c (finish w e) False (Leaves env I c w P) := by
  unfold finish
  refine .bind he fun r c' _ hstate hmemory hr => .of_reaches (Since.next_eq hnext) ?_
  refine (Reaches.finish hI.toIntegral hlayout w.ra_lt hr { result := y, record := w.record }
    (σ := c'.state) rfl rfl).mono fun _ c'' hafter hkept => ?_
  exact ⟨rfl, c''.machine, y, rfl, hkept.trans hmemory, hP, hstate ▸ hafter⟩

variable (hs : ∀ {S}, c.Knows I S s ⟨env.arch.word.ty, x⟩)

include hs

/-- The zeros of a word. -/
theorem countWord_comes (leading : Bool)
    (hP : ∀ k, ZeroRun leading (x.setWidth 32) k → P (.ofNat _ k)) :
    Comes env I c (Lift.low32 s >>= fun low => Lift.bind low >>= fun low =>
      Lift.widen (countZeros .w32 leading low) false >>= finish w) False (Leaves env I c w P) := by
  refine .give rfl (.bind (hs.low32 hI.toBitwise).always fun low c' _ hstate hmemory hlow => ?_)
  have hcount := countZeros_knows (S := fun _ => True) (v := .w32) hI hlow leading
  have hwidened := hcount.widened hI.toIntegral env.arch false
  have hcounted := hP _ (zeroRun_zeroCount leading _)
  rw [BitVec.ofNat_toNat] at hcounted
  refine .give (exec_widened hcount false) ?_
  exact (known_comes hI hlayout (Since.next_eq hnext) hwidened.always hcounted).mono Iff.rfl
    fun _ _ => Leaves.of_eq hstate hmemory

/-- The zeros of a doubleword. -/
theorem countDoubleword_comes (leading : Bool) (harch : env.arch = .ppc64)
    (hP : ∀ k, ZeroRun leading (x.setWidth 64) k → P (.ofNat _ k)) :
    Comes env I c (finish w (countZeros .w64 leading s)) False (Leaves env I c w P) := by
  obtain ⟨env, rfl⟩ := Env.exists_wide harch
  let y : BitVec 64 := x
  have hrun : ZeroRun leading (y.setWidth 64) (zeroCount leading y).toNat := by
    rw [BitVec.setWidth_eq]
    exact zeroRun_zeroCount leading y
  have hself : BitVec.ofNat 64 (zeroCount leading y).toNat = zeroCount leading y := by
    rw [BitVec.ofNat_toNat, BitVec.setWidth_eq]
  exact known_comes hI hlayout hnext (countZeros_knows (v := .w64) hI hs leading).always
    ((congrArg P hself).mp (hP _ hrun))

/-- The ones of every word. -/
theorem popCountWords_comes (hP : ∀ y, Lanewise 32 BitVec.cpop x y → P y) :
    Comes env I c (Lift.mode64 >>= fun wide => if wide then
      finish w (bin (.cast .cat32to64) (un (.popCount .w32) (un (.cast .high64to32) s))
        (un (.popCount .w32) (un (.cast .low64to32) s)))
      else finish w (un (.popCount .w32) s)) False (Leaves env I c w P) := by
  cases env with
  | mk arch =>
      refine .give rfl ?_
      cases arch with
      | ppc32 =>
          let y : BitVec 32 := x
          have hcount : c.Has I (un (.popCount .w32) s) ⟨.i32, y.cpop⟩ :=
            hs.always.un rfl (hI.popCount .w32 y)
          exact known_comes hI hlayout hnext hcount (hP _ (lanewise_self (by decide) y))
      | ppc64 =>
          let y : BitVec 64 := x
          have hhigh : c.Has I (un (.popCount .w32) (un (.cast .high64to32) s))
              ⟨.i32, (y.extractLsb' 32 32).cpop⟩ :=
            (hs.always.un rfl (hI.high64to32 y)).un rfl (hI.popCount .w32 _)
          have hlow : c.Has I (un (.popCount .w32) (un (.cast .low64to32) s))
              ⟨.i32, (y.setWidth 32).cpop⟩ :=
            (hs.always.un rfl (hI.cast .low64to32 rfl .i64 rfl y)).un rfl (hI.popCount .w32 _)
          rw [BitVec.setWidth_eq_extractLsb' (by decide)] at hlow
          refine known_comes hI hlayout hnext (hhigh.bin hlow rfl (hI.cat32to64 _ _)) (hP _ ?_)
          exact lanewise_append (k := 32) (by decide) y

/-- The ones of a doubleword. -/
theorem popCountDoubleword_comes (harch : env.arch = .ppc64)
    (hP : ∀ y, Lanewise 64 BitVec.cpop x y → P y) :
    Comes env I c (finish w (un (.popCount .w64) s)) False (Leaves env I c w P) := by
  obtain ⟨env, rfl⟩ := Env.exists_wide harch
  let y : BitVec 64 := x
  have hcount : c.Has I (un (.popCount .w64) s) ⟨.i64, y.cpop⟩ :=
    hs.always.un rfl (hI.popCount .w64 y)
  exact known_comes hI hlayout hnext hcount (hP _ (lanewise_self (by decide) y))

/-- A narrow number with its sign. -/
theorem extend_comes (width : Width) (hwide : width = .w64 → env.arch = .ppc64)
    (hP : P ((x.setWidth width.ty.bits).signExtend _)) :
    Comes env I c (Lift.narrow s width.ty >>= fun e => Lift.widen e true >>= finish w) False
      (Leaves env I c w P) := by
  obtain ⟨hexec, hnarrow⟩ := hs.always.narrow hI.toBitwise hwide
  obtain ⟨e, hexec', hwidened⟩ := hnarrow.widen hI.toScalar hwide true
  exact .give hexec (.give hexec' (known_comes hI hlayout hnext hwidened hP))

/-- Bits of one register that another one chooses. -/
theorem gather_comes (harch : env.arch = .ppc64)
    (hP : ∀ z, (∀ t, z.getLsbD t = (decide (t < 8) &&
      (c.state.operand env.arch I.order w.rb).getMsbD (x.extractLsb' (8 * t) 8).toNat)) → P z) :
    Comes env I c (Lift.getGpr w.rb >>= fun b => Lift.bind b >>= fun b =>
      permuteBits s b >>= finish w) False (Leaves env I c w P) := by
  obtain ⟨env, rfl⟩ := Env.exists_wide harch
  let y : BitVec 64 := x
  let b : BitVec 64 := c.state.operand env.wide.arch I.order w.rb
  refine .give (exec_getGpr hlayout w.rb_lt) ?_
  refine .bind ((Point.knows_gpr env.wide.arch w.rb).has rfl) fun t c' _ hstate hmemory ht => ?_
  have hreaches : Reaches env.wide I c' (permuteBits s t) fun e c'' => c''.state = c'.state ∧
      ∃ z : BitVec 64, (∀ {S}, c''.Knows I S e ⟨.i64, z⟩) ∧ Gathered y b 0 z :=
    permuteBits_reaches hI hs.since ht
  refine (finish_comes hI.toIntegral hlayout (Since.next_eq hnext) (hreaches.mono
    fun e c'' ⟨hkept, z, he, hz⟩ => ⟨hkept, z, he, hP z fun t => ?_⟩)).mono Iff.rfl
      fun _ _ => Leaves.of_eq hstate hmemory
  have hall : (0 ≤ t ∧ t < 8) ↔ t < 8 := and_iff_right (Nat.zero_le t)
  exact (hz t).trans (congrArg (· && _) (decide_eq_decide.mpr hall))

end

/-- The line of disassembly comes before the result. -/
theorem line_comes {line : String} {f : Unit → Lift Unit} {P : BitVec env.arch.word.ty.bits → Prop}
    (hf : ∀ c' [Step c c'], c'.state = c.state →
      Comes env I c' (f ()) False (Leaves env I c' w P)) :
    Comes env I c (Lift.listed line >>= f) False (Leaves env I c w P) :=
  .noted fun c' _ hstate hmemory => (hf c' hstate).mono Iff.rfl fun _ _ =>
    Leaves.of_eq hstate hmemory

/-- The instructions that share the route of the logical operations. -/
theorem bits_comes (hI : I.Counting) (hlayout : env.layout = env.arch)
    (hnext : c.progress.next = .continue) {op : BitOp} (hform : BitOp.ofXo10? w.xo10 = some op)
    (hlogic : op ≠ .equalBytes) :
    Comes env I c (registers w) ((Gate.mode64 ∈ op.gates ∧ env.arch = .ppc32) ∨ op.Reserved w)
      (Leaves env I c w fun z => op.Gives (c.state.operand env.arch I.order w.rs)
        (c.state.operand env.arch I.order w.rb) z) := by
  unfold registers
  refine .give (exec_getGpr hlayout w.rd_lt) ?_
  refine .bind ((Point.knows_gpr env.arch w.rs).has rfl) fun s c₁ _ hstate₁ hmemory₁ hs => ?_
  rw [← hstate₁] at hs ⊢
  refine Comes.mono ?_ Iff.rfl fun _ _ => Leaves.of_eq hstate₁ hmemory₁
  have hwide : env.arch ≠ .ppc32 → env.arch = .ppc64 := by cases env.arch <;> simp
  have hrb (what : String) : Lift.Refuses env c₁.progress (Lift.reservedZero w w.rb what)
      (w.rb ≠ 0) := Lift.reservedZero_refuses w w.rb what
  have hrecord (what : String) : Lift.Refuses env c₁.progress
      (Lift.reservedClear w w.record what) (w.record = true) :=
    Lift.reservedClear_refuses w w.record what
  have hmode (what : String) : Lift.Refuses env c₁.progress (Lift.needMode64 w what)
      (env.arch = .ppc32) := Lift.needMode64_refuses w what
  -- One case for each extended opcode. Its guards come first, in the order of the code.
  unfold BitOp.ofXo10? at hform
  split at hform
  all_goals cases hform
  all_goals rename_i hxo
  case h_1 =>
    simp only [hxo]
    refine (Comes.guard (hrb _) fun _ => line_comes fun c₂ _ hstate₂ => ?_).congr (φ := _ ∨ False)
      (by simp [BitOp.gates, BitOp.Reserved])
    exact countWord_comes hI hlayout (Since.next_eq hnext) hs.since true fun k hk => ⟨k, hk, rfl⟩
  case h_2 =>
    simp only [hxo]
    refine (Comes.guard (hrb _) fun _ => line_comes fun c₂ _ hstate₂ => ?_).congr (φ := _ ∨ False)
      (by simp [BitOp.gates, BitOp.Reserved])
    exact countWord_comes hI hlayout (Since.next_eq hnext) hs.since false fun k hk => ⟨k, hk, rfl⟩
  case h_3 =>
    simp only [hxo]
    refine (Comes.guard (hmode _) fun harch => .guard (hrb _) fun _ =>
      line_comes fun c₂ _ hstate₂ => ?_).congr (φ := _ ∨ _ ∨ False)
        (by simp [BitOp.gates, BitOp.Reserved])
    exact countDoubleword_comes hI hlayout (Since.next_eq hnext) hs.since true (hwide harch)
      fun k hk => ⟨k, hk, rfl⟩
  case h_4 =>
    simp only [hxo]
    refine (Comes.guard (hmode _) fun harch => .guard (hrb _) fun _ =>
      line_comes fun c₂ _ hstate₂ => ?_).congr (φ := _ ∨ _ ∨ False)
        (by simp [BitOp.gates, BitOp.Reserved])
    exact countDoubleword_comes hI hlayout (Since.next_eq hnext) hs.since false (hwide harch)
      fun k hk => ⟨k, hk, rfl⟩
  case h_5 =>
    simp only [hxo, extend, pure_bind]
    refine (Comes.guard (hrb _) fun _ => line_comes fun c₂ _ hstate₂ => ?_).congr (φ := _ ∨ False)
      (by simp [BitOp.gates, BitOp.Reserved])
    exact extend_comes hI hlayout (Since.next_eq hnext) hs.since .w8 Width.noConfusion rfl
  case h_6 =>
    simp only [hxo, extend, pure_bind]
    refine (Comes.guard (hrb _) fun _ => line_comes fun c₂ _ hstate₂ => ?_).congr (φ := _ ∨ False)
      (by simp [BitOp.gates, BitOp.Reserved])
    exact extend_comes hI hlayout (Since.next_eq hnext) hs.since .w16 Width.noConfusion rfl
  case h_7 =>
    simp only [hxo, extend, pure_bind]
    refine (Comes.guard (hrb _) fun _ => .guard (hmode _) fun _ =>
      line_comes fun c₂ _ hstate₂ => ?_).congr (φ := _ ∨ _ ∨ False)
        (by simp [BitOp.gates, BitOp.Reserved, or_comm])
    exact extend_comes hI hlayout (Since.next_eq hnext) hs.since .w32 Width.noConfusion rfl
  case h_8 =>
    simp only [hxo]
    refine (Comes.guard (hrb _) fun _ => .guard (hrecord _) fun _ =>
      line_comes fun c₂ _ hstate₂ => ?_).congr (φ := _ ∨ _ ∨ False)
        (by simp [BitOp.gates, BitOp.Reserved])
    exact finish_comes hI.toIntegral hlayout (Since.next_eq hnext)
      (popCountBytes_reaches hI.toModular hs.since)
  case h_9 =>
    simp only [hxo]
    refine (Comes.guard (hrb _) fun _ => .guard (hrecord _) fun _ =>
      line_comes fun c₂ _ hstate₂ => ?_).congr (φ := _ ∨ _ ∨ False)
        (by simp [BitOp.gates, BitOp.Reserved])
    exact popCountWords_comes hI hlayout (Since.next_eq hnext) hs.since fun _ h => h
  case h_10 =>
    simp only [hxo]
    refine (Comes.guard (hmode _) fun harch => .guard (hrb _) fun _ => .guard (hrecord _) fun _ =>
      line_comes fun c₂ _ hstate₂ => ?_).congr (φ := _ ∨ _ ∨ _ ∨ False)
        (by simp [BitOp.gates, BitOp.Reserved])
    exact popCountDoubleword_comes hI hlayout (Since.next_eq hnext) hs.since (hwide harch)
      fun _ h => h
  case h_11 =>
    simp only [hxo]
    refine (Comes.guard (hrb _) fun _ => .guard (hrecord _) fun _ =>
      line_comes fun c₂ _ hstate₂ => ?_).congr (φ := _ ∨ _ ∨ False)
        (by simp [BitOp.gates, BitOp.Reserved])
    exact finish_comes hI.toIntegral hlayout (Since.next_eq hnext)
      (parityWords_reaches hI.toBitwise hs.since)
  case h_12 =>
    simp only [hxo]
    refine (Comes.guard (hrb _) fun _ => .guard (hrecord _) fun _ => .guard (hmode _) fun harch =>
      line_comes fun c₂ _ hstate₂ => ?_).congr (φ := _ ∨ _ ∨ _ ∨ False)
        (by simp [BitOp.gates, BitOp.Reserved, or_comm, or_left_comm])
    exact finish_comes hI.toIntegral hlayout (Since.next_eq hnext)
      (parityDoublewords_reaches hI.toBitwise (hwide harch) hs.since)
  case h_13 =>
    simp only [hxo]
    refine (Comes.guard (hmode _) fun harch => .guard (hrecord _) fun _ =>
      line_comes fun c₂ _ hstate₂ => ?_).congr (φ := _ ∨ _ ∨ False)
        (by simp [BitOp.gates, BitOp.Reserved])
    refine gather_comes hI hlayout (Since.next_eq hnext) hs.since (hwide harch) fun z hz => ?_
    rwa [hstate₂] at hz
  case h_14 => exact absurd rfl hlogic

end Logic

/-! ## Whole instructions -/

namespace Insn.BitForm

variable {op : BitOp}

/-- The family of an instruction, with what its route and its code ask for. -/
theorem route (hform : w.BitForm op) : ∃ route, Route.find? w = some route ∧
    route.family = (if op = .equalBytes then .comparison else .logic) ∧
      ∀ g, (route.Closed g ∨ Gate.mode64 ∈ op.gates ∧ g.arch = .ppc32) ↔ g.Lacks op.gates := by
  obtain ⟨hopcode, hop⟩ := hform
  -- The code asks for the doubleword mode, and the route for the rest.
  have hgates : (Route.ofXo10 w.xo10).map (fun r => (r.gates, r.family)) =
      some (op.gates.filter (· ≠ .mode64), if op = .equalBytes then .comparison else .logic) := by
    unfold BitOp.ofXo10? at hop
    split at hop
    all_goals cases hop
    all_goals
      rename_i hxo
      rw [hxo]
      decide
  obtain ⟨pattern, hroute⟩ := Route.exists_pattern hgates
  refine ⟨_, (Route.find?_register hopcode).trans hroute, rfl, fun g => ?_⟩
  rw [Route.closed_iff, ← Gate.mode64_closed (f := .resolve g.arch g.info.caps)]
  simp only [List.mem_filter, decide_eq_true_eq, Guest.Lacks]
  constructor
  · rintro (⟨gate, ⟨hmem, -⟩, hclosed⟩ | ⟨hmem, hclosed⟩)
    · exact ⟨gate, hmem, hclosed⟩
    · exact ⟨.mode64, hmem, hclosed⟩
  · rintro ⟨gate, hmem, hclosed⟩
    by_cases hmode : gate = .mode64
    · exact .inr ⟨hmode ▸ hmem, hmode ▸ hclosed⟩
    · exact .inl ⟨gate, ⟨hmem, hmode⟩, hclosed⟩

/-- The code of an instruction. -/
theorem lift_comes (hform : w.BitForm op) (hI : I.Counting) (hlayout : env.layout = env.arch)
    (hnext : c.progress.next = .continue) {route : Route}
    (hfamily : route.family = if op = .equalBytes then .comparison else .logic) :
    Comes env I c (route.family.lift w)
      ((Gate.mode64 ∈ op.gates ∧ env.arch = .ppc32) ∨ op.Reserved w)
      (Leaves env I c w fun z => op.Gives (c.state.operand env.arch I.order w.rs)
        (c.state.operand env.arch I.order w.rb) z) := by
  obtain ⟨hopcode, hop⟩ := hform
  rw [hfamily]
  by_cases hbytes : op = .equalBytes
  · subst hbytes
    have hxo : w.xo10 = 508 := by
      unfold BitOp.ofXo10? at hop
      split at hop <;> first | assumption | cases hop
    have hlift : Comparison.lift w = Comparison.compareBytes w := by
      rw [Comparison.lift, hopcode, hxo]
      rfl
    change Comes env I c (Comparison.lift w) _ _
    rw [hlift]
    exact (Comparison.compareBytes_comes hI.toIntegral hlayout hnext).congr
      (by simp [BitOp.gates, BitOp.Reserved])
  · rw [if_neg hbytes]
    have hxo5 : w.xo5 ≠ 15 := by
      rw [w.xo5_eq]
      unfold BitOp.ofXo10? at hop
      split at hop <;> first | (rename_i hxo; rw [hxo]; decide) | cases hop
    have hlift : Logic.lift w = Logic.registers w := by
      rw [Logic.lift, if_neg (by omega), if_pos hopcode, if_neg hxo5]
    change Comes env I c (Logic.lift w) _ _
    rw [hlift]
    exact Logic.bits_comes hI hlayout hnext hop hbytes

end Insn.BitForm

/-- Instructions that look at single bits or bytes leave what these say, wherever they stand and in
every mode that has them. Besides their target they write condition field 0 at most. -/
theorem Guest.bits_tell (g : Guest) (hI : I.Counting) {op : BitOp} (hform : w.BitForm op) :
    g.Performs w I (g.Lacks op.gates ∨ op.Reserved w) fun cia next m out => next = .continue ∧
      ∃ x σ, out = ⟨(g.env cia cia).nia, .boring, m.memory, σ⟩ ∧
        op.Gives (m.state.operand g.arch I.order w.rs) (m.state.operand g.arch I.order w.rb) x ∧
        GuestState.Shows g.arch I.order w.ra { result := x, record := w.record } m.state σ := by
  obtain ⟨route, hroute, hfamily, hlacks⟩ := hform.route
  refine Guest.performs hroute (by simp [hform.1]) ((Gate.mode64 ∈ op.gates ∧ g.arch = .ppc32) ∨
    op.Reserved w) ?_ fun env c hlayout henv hnext => ?_
  · rw [← or_assoc, hlacks]
  · obtain ⟨cia, blockStart, rfl⟩ := henv
    refine (hform.lift_comes hI hlayout hnext hfamily).mono Iff.rfl ?_
    rintro next flow ⟨rfl, m, x, rfl, hmemory, hx, hstate⟩
    refine ⟨rfl, x, m.state, ?_, hx, ?_⟩
    · exact congrArg (fun memory => (⟨_, _, memory, _⟩ : Left M)) hmemory
    · rw [hstate]
      exact GuestState.shows_after w.ra_lt _

/-- The word `cntlzd r3,r4` counts 64 zeros in zero, where the operator says something else. -/
theorem Guest.bits_tell_zero :
    let g : Guest := { arch := .ppc64 }
    let start : Machine Interp.Reserved := .start ⟨fun _ => 0, false⟩ fun _ => 0
    (Interp.counting .big).op (.clz .w64) [⟨.i64, 0⟩] = (0 : BitVec 64) ∧
      ∃ next ss, (g.lift ⟨#[0x7C, 0x83, 0x00, 0x74]⟩ 0 0x1000 0x1000
          (.empty 0)).block.stmts.toList = ss ∧
        ((g.env 0x1000 0x1000).leave (.counting .big) next (runAll (.counting .big) #[] ss
          start)).state.operand .ppc64 .big 3 = (64 : BitVec 64) := by
  intro g start
  have hopen : ¬g.Lacks [.mode64] := by
    rintro ⟨gate, hgate, hclosed⟩
    rw [List.mem_singleton.mp hgate] at hclosed
    revert hclosed
    decide
  have hreserved : ¬BitOp.Reserved ⟨0x7C830074⟩ (.zeros .w64 true) := fun h => h (by decide)
  have hform : Insn.BitForm ⟨0x7C830074⟩ (.zeros .w64 true) := ⟨by decide, by decide⟩
  obtain ⟨next, ss, -, hstmts, -, x, σ, hout, hx, hshows⟩ :=
    (g.bits_tell (Interp.counting_counting .big) hform).exists_run (by decide)
      ⟨#[0x7C, 0x83, 0x00, 0x74]⟩ (by decide) (not_or.mpr ⟨hopen, hreserved⟩) 0x1000 start
  obtain ⟨k, hrun, hk⟩ := hx
  have hzero : (start.state.operand .ppc64 .big 4).setWidth 64 = (0 : BitVec 64) := by
    decide +kernel
  obtain rfl : k = 64 := ZeroRun.eq_width (hzero ▸ hrun)
  refine ⟨rfl, next, ss, hstmts, ?_⟩
  rw [hout]
  exact hshows.result.trans hk

end PowerLift
