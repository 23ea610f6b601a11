import PowerLift.Proofs.Transfers

/-!
# Loads and stores of pairs of registers

A quadword is moved in its halves, between memory and an even register with the odd one behind it.
Which half comes first in memory depends on the byte order.
-/

namespace PowerLift

open Lift (exec)
open Point (Knows Has Step Since)
open PowerLift.Expr (un bin)

variable {M : Type} {I : Interp M} {env : Env} {c : Point M} {w : Insn}

/-- A quadword is read in its halves. -/
theorem ByteMemory.read_halves (bytes : ByteMemory) (order : ByteOrder) (addr : BitVec 64) :
    bytes.read order addr .i128 =
      bytes.read order (addr + .ofNat 64 (GuestState.highHalf order)) .i64 ++
        bytes.read order (addr + .ofNat 64 (8 - GuestState.highHalf order)) .i64 := by
  have hquad : Ty.i128 ≠ .i1 := by decide
  have hdouble : Ty.i64 ≠ .i1 := by decide
  let hi : BitVec 64 := bytes.read order (addr + .ofNat 64 (GuestState.highHalf order)) .i64
  let lo : BitVec 64 := bytes.read order (addr + .ofNat 64 (8 - GuestState.highHalf order)) .i64
  refine read_eq_of_bytes (v := ⟨.i128, hi ++ lo⟩) hquad fun i hi' => ?_
  have hlt : i < 16 := by rwa [bytes_quad] at hi'
  have hhalf : GuestState.highHalf order = 0 ∨ GuestState.highHalf order = 8 := by
    cases order <;> simp [GuestState.highHalf]
  have hsplit (n k : Nat) : addr + .ofNat 64 (n + k) = addr + .ofNat 64 n + .ofNat 64 k := by
    rw [BitVec.ofNat_add, BitVec.add_assoc]
  -- A byte of the quadword lies in the one half or in the other.
  by_cases hhigh : GuestState.highHalf order ≤ i ∧ i < GuestState.highHalf order + 8
  · obtain ⟨k, rfl⟩ := Nat.exists_eq_add_of_le hhigh.1
    have hk : k < 8 := by omega
    rw [hsplit]
    exact ((byteAt_high hi lo hk).trans (byteAt_read hdouble hk)).symm
  · obtain ⟨k, rfl⟩ := Nat.exists_eq_add_of_le (show 8 - GuestState.highHalf order ≤ i by omega)
    have hk : k < 8 := by omega
    rw [hsplit]
    exact ((byteAt_low hi lo hk).trans (byteAt_read hdouble hk)).symm

theorem ByteMemory.read_high (bytes : ByteMemory) (order : ByteOrder) (addr : BitVec 64) :
    (bytes.read order addr .i128).extractLsb' 64 64 =
      bytes.read order (addr + .ofNat 64 (GuestState.highHalf order)) .i64 := by
  rw [read_halves]
  exact (BitVec.extractLsb'_append_eq_of_le (Nat.le_refl 64)).trans BitVec.extractLsb'_eq_self

theorem ByteMemory.read_low (bytes : ByteMemory) (order : ByteOrder) (addr : BitVec 64) :
    (bytes.read order addr .i128).extractLsb' 0 64 =
      bytes.read order (addr + .ofNat 64 (8 - GuestState.highHalf order)) .i64 := by
  rw [read_halves]
  exact (BitVec.extractLsb'_append_eq_of_add_le (Nat.le_refl 64)).trans BitVec.extractLsb'_eq_self

theorem Behind.knows {S : GuestState → Prop} {e e' : Expr} {n : Nat} (h : Behind env I e n e')
    {a : BitVec env.arch.word.ty.bits} (he : c.Knows I S e ⟨env.arch.word.ty, a⟩) :
    c.Knows I S e' ⟨env.arch.word.ty, a + .ofNat _ n⟩ := by
  obtain ⟨hcheck, heval⟩ := h
  cases env with
  | mk arch =>
      cases arch <;>
        exact ⟨hcheck _ he.check, fun m hm hS => heval m a (he.eval m hm hS)⟩

namespace LoadStore

/-- The state with a quadword in a pair of registers. The even register is the high half. -/
def withPair (arch : Arch) (order : ByteOrder) (w : Insn) (σ : GuestState)
    (x : BitVec Ty.i128.bits) : GuestState :=
  (σ.withOperand arch order w.rd ((x.extractLsb' 64 64).setWidth _)).withOperand arch order
    (w.rd + 1) ((x.extractLsb' 0 64).setWidth _)

/-- What loads and stores of a pair of registers leave. -/
structure PairDone (store : Bool) (env : Env) (I : Interp M) (view : M → ByteMemory) (w : Insn)
    (a : BitVec env.arch.word.ty.bits) (memory : M) (σ : GuestState) (out : Left M) : Prop where
  pc : out.pc = env.nia
  kind : out.kind = .boring
  bytes : view out.memory =
    if store then (view memory).write env.host (a.setWidth 64)
      ⟨.i128, (σ.operand env.arch I.order w.rd).setWidth 64 ++
        (σ.operand env.arch I.order (w.rd + 1)).setWidth 64⟩
    else view memory
  loads : store = false → out.memory = memory
  state : out.state =
    if store then σ
    else withPair env.arch I.order w σ ((view memory).read env.host (a.setWidth 64) .i128)

variable {view : M → ByteMemory}

theorem PairDone.eq_of_load {view : M → ByteMemory} {a : BitVec env.arch.word.ty.bits}
    {memory : M} {σ : GuestState} {out : Left M}
    (h : PairDone false env I view w a memory σ out) :
    out = ⟨env.nia, .boring, memory, withPair env.arch I.order w σ
      ((view memory).read env.host (a.setWidth 64) .i128)⟩ := by
  obtain ⟨hpc, hkind, -, hloads, hstate⟩ := h
  rw [if_neg Bool.false_ne_true] at hstate
  rw [← hpc, ← hkind, ← hstate, ← hloads rfl]

/-- Both halves are stored. -/
def storePair (w : Insn) (hi lo : Expr) : Lift Unit := do
  Lift.store hi (← Lift.getGpr w.rd)
  Lift.store lo (← Lift.getGpr (w.rd + 1))

/-- Both halves are loaded before a register changes. -/
def loadPair (w : Insn) (hi lo : Expr) : Lift Unit := do
  let x ← Lift.bind (← Lift.load .i64 hi)
  let y ← Lift.bind (← Lift.load .i64 lo)
  Lift.putGpr w.rd x
  Lift.putGpr (w.rd + 1) y

/-- The addresses of the halves of a pair. -/
theorem pairAddress_comes (hI : I.Modular) (hlayout : env.layout = env.arch) {line : String}
    {d : BitVec 64} {f : Expr → Expr → Lift Unit} {φ : Prop} {Q : Continuation → Flow M → Prop}
    {a : BitVec env.arch.word.ty.bits}
    (ha : Offset.address env.arch I.order w false c.state (.disp d) = a)
    (hf : ∀ hi lo c' [Since c c'], c'.state = c.state → c'.memory = c.memory →
      (∀ {S}, c'.Knows I S hi ⟨_, a + .ofNat _ (GuestState.highHalf env.host)⟩) →
      (∀ {S}, c'.Knows I S lo ⟨_, a + .ofNat _ (8 - GuestState.highHalf env.host)⟩) →
      Comes env I c' (f hi lo) φ Q) :
    Comes env I c (do
      Lift.listed line
      let e ← Lift.eaOr0Disp w.ra d
      let e ← Lift.bind e
      let x ← Lift.quadHalves e
      f x.1 x.2) φ Q := by
  refine .listed fun c₁ _ hmachine₁ => ?_
  have hstate₁ : c₁.state = c.state := congrArg Machine.state hmachine₁
  obtain ⟨e, hexec, he⟩ := ea_knows (c := c₁) hI hlayout w false (.disp d)
  rw [hstate₁, ha] at he
  refine .give hexec (.bind (he.has hstate₁) fun t c₂ _ hstate₂ hmemory₂ ht => ?_)
  obtain ⟨hi, lo, hhalves, hhi, hlo⟩ := exec_quadHalves (p := c₂.progress) env hI t
  refine .give hhalves (hf hi lo c₂ ?_ ?_ (hhi.knows ht) (hlo.knows ht))
  · rw [hstate₂, hstate₁]
  · exact hmemory₂.trans (congrArg Machine.memory hmachine₁)

section

variable (harch : env.arch = .ppc64)

include harch

theorem address_half (a : BitVec env.arch.word.ty.bits) (n : Nat) :
    (a + .ofNat _ n).setWidth 64 = a.setWidth 64 + .ofNat 64 n := by
  generalize env.arch = arch at harch a
  subst harch
  exact (BitVec.setWidth_eq _).trans (congrArg (· + _) (BitVec.setWidth_eq a).symm)

theorem storePair_comes (hview : I.Bytewise view) (hlayout : env.layout = env.arch)
    (hrd : w.rd + 1 < 32) {hi lo : Expr} {a : BitVec env.arch.word.ty.bits}
    (hhi : ∀ {S}, c.Knows I S hi ⟨_, a + .ofNat _ (GuestState.highHalf env.host)⟩)
    (hlo : ∀ {S}, c.Knows I S lo ⟨_, a + .ofNat _ (8 - GuestState.highHalf env.host)⟩)
    (hnext : c.progress.next = .continue) :
    Comes env I c (storePair w hi lo) False fun next flow => next = .continue ∧
        PairDone true env I view w a c.memory c.state (env.leave I next flow) := by
  have hdouble : Ty.i64 ≠ .i1 := by decide
  have hdata (c : Point M) (i : Nat) : c.Has I (.gpr env.arch i) _ :=
    ((Point.knows_gpr env.arch i).congr (Value.double_eq harch _)).has rfl
  refine .give (exec_getGpr hlayout w.rd_lt) ?_
  refine .store hhi.always (hdata c w.rd) hdouble fun c₁ _ hstate₁ hmemory₁ => ?_
  refine .give (exec_getGpr hlayout hrd) ?_
  refine .last (.store hlo.since.always (hdata c₁ (w.rd + 1)) hdouble
    fun c₂ _ hstate₂ hmemory₂ => .done (Since.next_eq hnext) ⟨rfl, ?_⟩)
  refine ⟨rfl, rfl, ?_, fun hload => Bool.noConfusion hload, hstate₂.trans hstate₁⟩
  change view c₂.memory = _
  rw [hmemory₂, hview.store _ _ _ _ hdouble, hmemory₁, hview.store _ _ _ _ hdouble, hstate₁,
    if_pos rfl]
  simp only [Value.address, address_half harch]
  exact ByteMemory.write_halves _ _

theorem loadPair_comes (hview : I.Bytewise view) (hlayout : env.layout = env.arch)
    (hrd : w.rd + 1 < 32) {hi lo : Expr} {a : BitVec env.arch.word.ty.bits}
    (hhi : ∀ {S}, c.Knows I S hi ⟨_, a + .ofNat _ (GuestState.highHalf env.host)⟩)
    (hlo : ∀ {S}, c.Knows I S lo ⟨_, a + .ofNat _ (8 - GuestState.highHalf env.host)⟩)
    (hnext : c.progress.next = .continue) :
    Comes env I c (loadPair w hi lo) False fun next flow => next = .continue ∧
        PairDone false env I view w a c.memory c.state (env.leave I next flow) := by
  have hdouble : Ty.i64 ≠ .i1 := by decide
  refine .give rfl (.bind (hhi.always.load hview env.host hdouble)
    fun x c₁ _ hstate₁ hmemory₁ hx => ?_)
  have hlo₁ := hlo.since.always.load (c := c₁) hview env.host hdouble
  refine .give rfl (.bind hlo₁ fun y c₂ _ hstate₂ hmemory₂ hy => ?_)
  have hx' := hx.since.always (c := c₂) |>.congr (Value.of_double harch _)
  refine .putGpr hlayout w.rd_lt hx' fun c₃ _ hstate₃ hmemory₃ => ?_
  have hy' := hy.since.always (c := c₃) |>.congr (Value.of_double harch _)
  refine .last (.putGpr hlayout hrd hy' fun c₄ _ hstate₄ hmemory₄ =>
    .done (Since.next_eq hnext) ⟨rfl, ?_⟩)
  have hmemory : c₄.memory = c.memory := by rw [hmemory₄, hmemory₃, hmemory₂, hmemory₁]
  refine ⟨rfl, rfl, congrArg view hmemory, fun _ => hmemory, ?_⟩
  change c₄.state = _
  rw [hstate₄, hstate₃, hstate₂, hstate₁, hmemory₁, address_half harch, address_half harch,
    if_neg Bool.false_ne_true, withPair, ByteMemory.read_high, ByteMemory.read_low]

end

theorem quadword_comes (hI : I.Modular) (hview : I.Bytewise view) (hlayout : env.layout = env.arch)
    (hnext : c.progress.next = .continue) (store : Bool) :
    Comes env I c (quadword w store)
      (env.arch = .ppc32 ∨ w.rd % 2 ≠ 0 ∨ (store = false ∧ (w.slice 28 4 ≠ 0 ∨ w.rd = w.ra)))
      fun next flow => next = .continue ∧
        PairDone store env I view w (Offset.address env.arch I.order w false c.state
          (.disp (if store then w.displacement 14
            else (w.raw.extractLsb' 4 12 ++ 0#4).signExtend 64)))
          c.memory c.state (env.leave I next flow) := by
  have hpair : ¬env.arch = .ppc32 → env.arch = .ppc64 := by
    cases env.arch <;> simp
  unfold quadword
  cases store with
  | true =>
      simp only [if_true, pure_bind, ds_eq]
      generalize ha : Offset.address env.arch I.order w false c.state _ = a
      refine (Comes.guard (Lift.needMode64_refuses w _) fun harch => .guard
        (Lift.invalidIf_refuses w _ _) fun heven => ?_).congr (φ := _ ∨ _ ∨ False) (by simp)
      refine pairAddress_comes (f := storePair w) hI hlayout ha fun hi lo c' _ hstate hmemory
        hhi hlo => ?_
      rw [← hstate, ← hmemory]
      exact storePair_comes (hpair harch) hview hlayout
        (Insn.pair_lt w.rd_lt (by simpa using heven)) hhi hlo (Since.next_eq hnext)
  | false =>
      simp only [Bool.false_eq_true, if_false, pure_bind, dq_eq]
      generalize ha : Offset.address env.arch I.order w false c.state _ = a
      refine (Comes.guard (Lift.needMode64_refuses w _) fun harch => .guard
        (Lift.invalidIf_refuses w _ _) fun heven => .guard (Lift.reservedZero_refuses w _ _)
          fun _ => .guard (Lift.invalidIf_refuses w _ _) fun _ => ?_).congr
            (φ := _ ∨ _ ∨ _ ∨ _ ∨ False) (by simp)
      refine pairAddress_comes (f := loadPair w) hI hlayout ha fun hi lo c' _ hstate hmemory
        hhi hlo => ?_
      rw [← hstate, ← hmemory]
      exact loadPair_comes (hpair harch) hview hlayout
        (Insn.pair_lt w.rd_lt (by simpa using heven)) hhi hlo (Since.next_eq hnext)

end LoadStore

end PowerLift
