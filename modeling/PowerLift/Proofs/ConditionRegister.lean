import PowerLift.Proofs.ConditionWord
import PowerLift.Proofs.Effect
import PowerLift.Route

/-!
# The condition register in its bytes

Code reads and writes the condition register by bits, by fields and as a whole. Each reader gives
what it would give of a plain word, and each writer does to the bytes what it would do to a plain
word, whatever the bytes held and whatever is written.
-/

namespace PowerLift

open CrWord (bit field withBit withField withChosen withFields withEach)
open Lift (Does exec getCrBit getCrField getCr getByte32 putCrBit putCrField putCrMasked putSlot)
open PowerLift.Expr (un bin)

variable {M : Type} {I : Interp M} {env : Env} {p : Progress}

theorem Layout.cr321_eq (arch : Arch) {f : Nat} (hf : f < 8) :
    locate arch (.cr321 f) = .ok ⟨crBase arch + 2 * f, .i8⟩ := by
  simp [locate, offset, hf, Except.map, Slot.ty]

theorem Layout.cr0_eq (arch : Arch) {f : Nat} (hf : f < 8) :
    locate arch (.cr0 f) = .ok ⟨crBase arch + 2 * f + 1, .i8⟩ := by
  simp [locate, offset, hf, Except.map, Slot.ty]

/-! ## Readers -/

/-- A lifting that emits nothing and gives the value of `value` in every state. -/
def Lift.Yields (env : Env) (I : Interp M) (p : Progress) (x : Lift Expr)
    (value : GuestState → BitVec 32) : Prop :=
  ∃ e, exec env p x = (.ok e, p) ∧ p.stage.check e = .ok .i32 ∧
    ∀ m : Machine M, e.eval I m = .i32 (value m.state)

/-- A byte of the record, as 32 bits. -/
def byte32 (o : Nat) : Expr := un (.cast .zext8to32) (.get o .i8)

theorem byte32_eval (hI : I.Bitwise) (o : Nat) (m : Machine M) :
    (byte32 o).eval I m = .i32 ((m.state o).setWidth 32) := by
  have hget : (Expr.get o .i8).eval I m = .i8 (m.state o) := by
    rw [Expr.eval, GuestState.read_i8]
    rfl
  exact hI.eval_zext8to32 hget

theorem byte32_check (s : Stage) (o : Nat) : s.check (byte32 o) = .ok .i32 :=
  Stage.check_un rfl rfl

theorem exec_getByte32 {slot : Slot} {o : Nat} (h : Layout.locate env.layout slot = .ok ⟨o, .i8⟩) :
    exec env p (getByte32 slot) = (.ok (byte32 o), p) := by
  rw [getByte32, Lift.exec_bind, Lift.exec_getSlot h]
  rfl

theorem Layout.crBit_place (arch : Arch) {b : Nat} (hb : b < 32) :
    locate arch (CrBit.slot ⟨b / 4, 3 - b % 4⟩) = .ok ⟨GuestState.crByte arch b, .i8⟩ := by
  have hf : b / 4 < 8 := by omega
  unfold CrBit.slot GuestState.crByte
  split
  · exact cr0_eq arch hf
  · exact cr321_eq arch hf

theorem crBit_toNat (b : Nat) : (BitVec.ofNat 8 (3 - b % 4)).toNat = 3 - b % 4 := by
  rw [BitVec.toNat_ofNat]
  omega

theorem getCrBit_yields (hI : I.Bitwise) {b : Nat} (hb : b < 32) :
    Lift.Yields env I p (getCrBit b) fun σ =>
      (BitVec.ofBool (bit (σ.cr env.layout) b)).setWidth 32 := by
  have hbyte := exec_getByte32 (p := p) (Layout.crBit_place env.layout hb)
  have hcheck := byte32_check p.stage (GuestState.crByte env.layout b)
  unfold Lift.Yields getCrBit
  rw [Lift.crBit_eq hb, Lift.exec_bind, Lift.exec_ofExcept]
  simp only [Lift.exec_bind, hbyte, GuestState.bit_cr hb]
  by_cases hzero : 3 - b % 4 = 0
  · simp only [hzero, if_true]
    refine ⟨_, rfl, Stage.check_bin rfl hcheck rfl, fun m => ?_⟩
    refine (hI.eval_and32 (byte32_eval hI _ m) rfl).trans (congrArg Value.i32 ?_)
    rw [CrWord.and_one]
    simp
  · simp only [hzero, if_false]
    refine ⟨_, rfl, Stage.check_bin rfl (Stage.check_bin rfl hcheck rfl) rfl, fun m => ?_⟩
    have hshift := hI.eval_shr32 (byte32_eval hI (GuestState.crByte env.layout b) m)
      (crBit_toNat b) (by omega)
    refine (hI.eval_and32 hshift rfl).trans (congrArg Value.i32 ?_)
    have hlt : 3 - b % 4 < 32 := by omega
    rw [CrWord.and_one, BitVec.getLsbD_ushiftRight, BitVec.getLsbD_setWidth, Nat.add_zero,
      decide_eq_true hlt, Bool.true_and]

/-- A condition field, as 32 bits. -/
def field32 (arch : Arch) (f : Nat) : Expr :=
  bin .or32 (bin .and32 (byte32 (Layout.crBase arch + 2 * f)) (.u32 0xE))
    (bin .and32 (byte32 (Layout.crBase arch + 2 * f + 1)) (.u32 1))

theorem field32_check (s : Stage) (arch : Arch) (f : Nat) : s.check (field32 arch f) = .ok .i32 :=
  Stage.check_bin rfl (Stage.check_bin rfl (byte32_check s _) rfl)
    (Stage.check_bin rfl (byte32_check s _) rfl)

theorem field32_eval (hI : I.Bitwise) (arch : Arch) (f : Nat) (m : Machine M) :
    (field32 arch f).eval I m = .i32 ((m.state.crField arch f).setWidth 32) := by
  have hhi := hI.eval_and32 (byte32_eval hI (Layout.crBase arch + 2 * f) m)
    (show (Expr.u32 0xE).eval I m = .i32 0xE from rfl)
  have hlo := hI.eval_and32 (byte32_eval hI (Layout.crBase arch + 2 * f + 1) m)
    (show (Expr.u32 1).eval I m = .i32 1 from rfl)
  exact (hI.eval_or32 hhi hlo).trans (congrArg Value.i32 (CrWord.nibble_setWidth _ _))

theorem exec_getCrField {f : Nat} (hf : f < 8) :
    exec env p (getCrField f) = (.ok (field32 env.layout f), p) := by
  unfold getCrField
  rw [Lift.exec_bind, exec_getByte32 (Layout.cr321_eq env.layout hf)]
  simp only
  rw [Lift.exec_bind, exec_getByte32 (Layout.cr0_eq env.layout hf)]
  rfl

theorem getCrField_yields (hI : I.Bitwise) {f : Nat} (hf : f < 8) :
    Lift.Yields env I p (getCrField f) fun σ => (field (σ.cr env.layout) f).setWidth 32 := by
  simp only [GuestState.field_cr hf]
  exact ⟨_, exec_getCrField hf, field32_check _ _ _, field32_eval hI env.layout f⟩

theorem crShift_toNat (f : Nat) : (Lift.crShift f).toNat = 28 - 4 * f := by
  rw [Lift.crShift, BitVec.toNat_ofNat]
  omega

/-- A condition field at its place in the register. -/
def placed32 (arch : Arch) (f : Nat) : Expr := bin .shl32 (field32 arch f) (.u8 (Lift.crShift f))

theorem placed32_check (s : Stage) (arch : Arch) (f : Nat) : s.check (placed32 arch f) = .ok .i32 :=
  Stage.check_bin rfl (field32_check s arch f) rfl

theorem placed32_eval (hI : I.Bitwise) (arch : Arch) (f : Nat) (m : Machine M) :
    (placed32 arch f).eval I m =
      .i32 ((m.state.crField arch f).setWidth 32 <<< (28 - 4 * f)) :=
  hI.eval_shl32 (field32_eval hI arch f m) (crShift_toNat f) (by omega)

/-- An expression joined with condition fields at their places. -/
def withPlaced (arch : Arch) (fs : List Nat) (e : Expr) : Expr :=
  fs.foldl (fun e f => bin .or32 e (placed32 arch f)) e

theorem withPlaced_check {s : Stage} (arch : Arch) (fs : List Nat) {e : Expr}
    (he : s.check e = .ok .i32) : s.check (withPlaced arch fs e) = .ok .i32 := by
  induction fs generalizing e with
  | nil => exact he
  | cons f fs ih => exact ih (Stage.check_bin rfl he (placed32_check s arch f))

theorem withPlaced_eval (hI : I.Bitwise) (arch : Arch) (fs : List Nat) {e : Expr} {m : Machine M}
    {x : BitVec 32} (he : e.eval I m = .i32 x) : (withPlaced arch fs e).eval I m =
      .i32 (CrWord.sumFields (m.state.crField arch) fs x) := by
  induction fs generalizing e x with
  | nil => exact he
  | cons f fs ih => exact ih (hI.eval_or32 he (placed32_eval hI arch f m))

theorem getCr_yields (hI : I.Bitwise) :
    Lift.Yields env I p getCr fun σ => σ.cr env.layout := by
  refine ⟨withPlaced env.layout [1, 2, 3, 4, 5, 6, 7] (placed32 env.layout 0), ?_,
    withPlaced_check _ _ (placed32_check _ _ _), fun m => ?_⟩
  · unfold getCr
    rw [Lift.exec_bind, exec_getCrField (by decide)]
    refine Lift.exec_foldlM (fun e f hf => ?_) _
    have hlt : ∀ f ∈ [1, 2, 3, 4, 5, 6, 7], f < 8 := by decide
    rw [Lift.exec_bind, exec_getCrField (hlt f hf)]
    rfl
  · refine (withPlaced_eval hI _ _ (placed32_eval hI env.layout 0 m)).trans
      (congrArg Value.i32 ?_)
    have hcr : CrWord.sumFields (m.state.crField env.layout) (List.range 8) 0#32 =
      m.state.cr env.layout := GuestState.sumFields_eq_cr
    rwa [show List.range 8 = 0 :: [1, 2, 3, 4, 5, 6, 7] from rfl, CrWord.sumFields_cons,
      BitVec.zero_or] at hcr

/-! ## Writers -/

/-- The bytes of a condition field. -/
def Layout.InField (arch : Arch) (f o : Nat) : Prop :=
  o = crBase arch + 2 * f ∨ o = crBase arch + 2 * f + 1

/-- The machine `m'` is `m` with the condition register at `x`: of memory, of the temporaries below
`n` and of the bytes that are not `touched` nothing changes. -/
structure CrChanged (arch : Arch) (n : Nat) (touched : Nat → Prop) (x : BitVec 32)
    (m m' : Machine M) : Prop where
  cr_eq : m'.state.cr arch = x
  bytes : ∀ o, ¬touched o → m'.state o = m.state o
  memory : m'.memory = m.memory
  temps : ∀ t < n, m'.temps t = m.temps t

namespace CrChanged

variable {arch : Arch} {n n' : Nat} {touched touched' : Nat → Prop} {x y : BitVec 32}
  {m m' m'' : Machine M}

theorem refl (m : Machine M) : CrChanged arch n touched (m.state.cr arch) m m :=
  ⟨rfl, fun _ _ => rfl, rfl, fun _ _ => rfl⟩

theorem mono (h : CrChanged arch n touched x m m') (hn : n' ≤ n)
    (htouched : ∀ o, touched o → touched' o) : CrChanged arch n' touched' x m m' where
  cr_eq := h.cr_eq
  bytes o ho := h.bytes o fun ht => ho (htouched o ht)
  memory := h.memory
  temps t ht := h.temps t (by omega)

theorem trans (h : CrChanged arch n touched x m m') (h' : CrChanged arch n touched y m' m'') :
    CrChanged arch n touched y m m'' where
  cr_eq := h'.cr_eq
  bytes o ho := (h'.bytes o ho).trans (h.bytes o ho)
  memory := h'.memory.trans h.memory
  temps t ht := (h'.temps t ht).trans (h.temps t ht)

/-- Temporaries from `n` on do not count. -/
theorem bind (m : Machine M) {t : Nat} (ht : n ≤ t) (v : Value) :
    CrChanged arch n touched (m.state.cr arch) m (m.bind t v) where
  cr_eq := rfl
  bytes _ _ := rfl
  memory := rfl
  temps u hu := by
    have hne : u ≠ t := by omega
    simp [Machine.bind, hne]

/-- Other bytes for a field. -/
theorem withCrBytes {f : Nat} (hf : f < 8) {hi lo : BitVec 8} {v : BitVec 4}
    (hv : ((hi &&& 0xE) ||| (lo &&& 1)).setWidth 4 = v) (m : Machine M) :
    CrChanged arch n (Layout.InField arch f) (withField (m.state.cr arch) f v) m
      { m with state := m.state.withCrBytes arch f hi lo } where
  cr_eq := by
    refine GuestState.cr_eq_withField hf ?_ fun g hg => ?_
    · rw [GuestState.crField_withCrBytes, if_pos rfl, hv]
    · rw [GuestState.crField_withCrBytes, if_neg hg]
  bytes o ho := by
    obtain ⟨hhi, hlo⟩ := not_or.mp ho
    simp only [GuestState.withCrBytes, hhi, hlo, if_false]
  memory := rfl
  temps _ _ := rfl

/-- Another byte for a bit. -/
theorem writeByte {b : Nat} (hb : b < 32) {x : BitVec 8} {v : Bool}
    (hbit : x.getLsbD (3 - b % 4) = v) (m : Machine M)
    (hkeep : 3 - b % 4 ≠ 0 → ∀ k, k ≠ 3 - b % 4 →
      x.getLsbD k = (m.state (GuestState.crByte arch b)).getLsbD k) (order : ByteOrder) :
    CrChanged arch n (· = GuestState.crByte arch b) (withBit (m.state.cr arch) b v) m
      { m with state := m.state.write order (GuestState.crByte arch b) (.i8 x) } where
  cr_eq := GuestState.cr_eq_withBit hb hbit hkeep fun o => GuestState.write_i8 x o
  bytes o ho := (GuestState.write_i8 x o).trans (if_neg ho)
  memory := rfl
  temps _ _ := rfl

end CrChanged

/-- Behind `p`, the lifting `x` succeeds, and in the machines given its code leaves the condition
register at `result` and every byte as it was that is not `touched`. -/
def Lift.ChangesCr (env : Env) (I : Interp M) (p : Progress) (R : Machine M → Prop) (x : Lift Unit)
    (touched : Nat → Prop) (result : Machine M → BitVec 32) : Prop :=
  ∃ p' F, Does env I p x () p' F ∧ ∀ m, R m →
    CrChanged env.layout p.stage.fresh touched (result m) m (F m)

namespace Lift.ChangesCr

variable {R R' : Machine M → Prop} {touched touched' : Nat → Prop}
  {result result' : Machine M → BitVec 32}

theorem mono {x : Lift Unit} (h : Lift.ChangesCr env I p R x touched result)
    (hR : ∀ m, R' m → R m ∧ result m = result' m) (htouched : ∀ o, touched o → touched' o) :
    Lift.ChangesCr env I p R' x touched' result' := by
  obtain ⟨p', F, hdoes, hchanged⟩ := h
  refine ⟨p', F, hdoes, fun m hm => ?_⟩
  obtain ⟨hm, hresult⟩ := hR m hm
  rw [← hresult]
  exact (hchanged m hm).mono (Nat.le_refl _) htouched

/-- A lifting without effect comes first. -/
theorem after {α : Type} {x : Lift α} {a : α} {f : α → Lift Unit} {p₁ : Progress}
    (hx : Does env I p x a p₁ id) (hf : Lift.ChangesCr env I p₁ R (f a) touched result) :
    Lift.ChangesCr env I p R (x >>= f) touched result := by
  obtain ⟨p', F, hdoes, hchanged⟩ := hf
  exact ⟨p', F, hx.andThen hdoes, fun m hm =>
    (hchanged m hm).mono hx.follows.fresh_le fun _ ho => ho⟩

theorem listed {line : String} {x : Lift Unit} (hp : p.stage.Level)
    (hx : ∀ p' : Progress, p'.stage = p.stage → Lift.ChangesCr env I p' R x touched result) :
    Lift.ChangesCr env I p R (Lift.listed line >>= fun _ => x) touched result :=
  .after (listed_does hp line) (hx _ rfl)

/-- A value is bound first. -/
theorem bound {e : Expr} {τ : Ty} {f : Expr → Lift Unit} (hp : p.stage.Level)
    (he : p.stage.check e = .ok τ)
    (hf : Lift.ChangesCr env I { p with stage := p.stage.withTemp e τ } R' (f (.tmp p.stage.fresh))
      touched result')
    (hR : ∀ m, R m → R' (m.bind p.stage.fresh (e.eval I m)) ∧
      result' (m.bind p.stage.fresh (e.eval I m)) = result m) :
    Lift.ChangesCr env I p R (Lift.bind e >>= f) touched result := by
  obtain ⟨p', F, hdoes, hchanged⟩ := hf
  have hbind : Does env I p (Lift.bind e) _ _ _ := Lift.bind_does hp he
  refine ⟨p', _, hbind.andThen hdoes, fun m hm => ?_⟩
  obtain ⟨hm, hresult⟩ := hR m hm
  rw [← hresult]
  exact (CrChanged.bind m (Nat.le_refl _) _).trans
    ((hchanged _ hm).mono hbind.follows.fresh_le fun _ ho => ho)

theorem andThen {x y : Lift Unit} {result₁ : Machine M → BitVec 32}
    (hx : Lift.ChangesCr env I p R x touched result₁)
    (hy : ∀ p' : Progress, p.stage.Follows p'.stage →
      Lift.ChangesCr env I p' R' y touched result')
    (hR : ∀ m m', R m → CrChanged env.layout p.stage.fresh touched (result₁ m) m m' →
      R' m' ∧ result' m' = result m) :
    Lift.ChangesCr env I p R (x >>= fun _ => y) touched result := by
  obtain ⟨p₁, F, hdoes, hchanged⟩ := hx
  obtain ⟨p₂, G, hdoes', hchanged'⟩ := hy p₁ hdoes.follows
  refine ⟨p₂, _, hdoes.andThen hdoes', fun m hm => ?_⟩
  obtain ⟨hm', hresult⟩ := hR m (F m) hm (hchanged m hm)
  rw [← hresult]
  exact (hchanged m hm).trans ((hchanged' _ hm').mono hdoes.follows.fresh_le fun _ ho => ho)

/-- Writes in turn do to the register what one does after the other. -/
theorem forM {α : Type} {l : List α} {f : α → Lift Unit} {s : Stage} (hp : s.Follows p.stage)
    (change : Machine M → BitVec 32 → α → BitVec 32)
    (h : ∀ a ∈ l, ∀ p' : Progress, s.Follows p'.stage →
      Lift.ChangesCr env I p' R (f a) touched fun m => change m (m.state.cr env.layout) a)
    (hR : ∀ m m' x, R m → CrChanged env.layout s.fresh touched x m m' →
      R m' ∧ change m' = change m) :
    Lift.ChangesCr env I p R (l.forM f) touched fun m =>
      l.foldl (change m) (m.state.cr env.layout) := by
  induction l generalizing p with
  | nil => exact ⟨p, id, .still hp.level rfl, fun m _ => .refl m⟩
  | cons a l ih =>
      refine (h a List.mem_cons_self p hp).andThen
        (fun p' hp' => ih (hp.trans hp') fun b hb => h b (List.mem_cons_of_mem a hb))
        fun m m' hm hchanged => ?_
      obtain ⟨hm', hchange⟩ := hR m m' _ hm (hchanged.mono hp.fresh_le fun _ ho => ho)
      refine ⟨hm', ?_⟩
      rw [hchange, hchanged.cr_eq]
      rfl

end Lift.ChangesCr

/-- An operand has the type of a word, and a value in the machines given. -/
structure Operand (I : Interp M) (s : Stage) (R : Machine M → Prop) (e : Expr)
    (value : Machine M → BitVec 32) : Prop where
  check : s.check e = .ok .i32
  eval : ∀ m, R m → e.eval I m = .i32 (value m)

variable {R : Machine M → Prop} {e : Expr} {value : Machine M → BitVec 32}

theorem GuestState.write_field (arch : Arch) (σ : GuestState) (order : ByteOrder) (f : Nat)
    (hi lo : BitVec 8) :
    (σ.write order (Layout.crBase arch + 2 * f) (.i8 hi)).write order
      (Layout.crBase arch + 2 * f + 1) (.i8 lo) = σ.withCrBytes arch f hi lo := by
  funext o
  refine (write_i8 lo o).trans ?_
  rw [show σ.write order (Layout.crBase arch + 2 * f) (.i8 hi) o = _ from write_i8 hi o,
    withCrBytes]
  grind

theorem putCrField_changes (hI : I.Bitwise) (hp : p.stage.Level) {f : Nat} (hf : f < 8)
    (he : Operand I p.stage R e value) :
    Lift.ChangesCr env I p R (putCrField f e) (Layout.InField env.layout f)
      fun m => withField (m.state.cr env.layout) f ((value m).setWidth 4) := by
  have hbind : Does env I p (Lift.bind e) _ _ _ := Lift.bind_does hp he.check
  have htmp := Stage.check_fresh hp e .i32
  have hpart : ∀ mask, (p.stage.withTemp e .i32).check (un (.cast .low32to8)
      (bin .and32 (.tmp p.stage.fresh) (.u32 mask))) = .ok .i8 :=
    fun mask => Stage.check_un rfl (Stage.check_bin rfl htmp rfl)
  have hhi : Does env I _ (putSlot (.cr321 f) _) _ _ _ := Lift.putSlot_does hbind.follows.level
    (Layout.cr321_eq env.layout hf) (hpart 0xE)
  have hlo : Does env I _ (putSlot (.cr0 f) _) _ _ _ := Lift.putSlot_does hhi.follows.level
    (Layout.cr0_eq env.layout hf) (hpart 1)
  refine ⟨_, _, hbind.andThen (hhi.andThen hlo), fun m hm => ?_⟩
  -- What is written are parts of the value that was bound.
  let v := value m
  let bound := m.bind p.stage.fresh (.i32 v)
  have hvalue : ∀ (mask : BitVec 32) (σ : GuestState),
      (un (.cast .low32to8) (bin .and32 (.tmp p.stage.fresh) (.u32 mask))).eval I
        { bound with state := σ } = .i8 ((v &&& mask).setWidth 8) := by
    intro mask σ
    have htemp : (Expr.tmp p.stage.fresh).eval I { bound with state := σ } = .i32 v := by
      simp [Expr.eval, bound, Machine.bind]
    exact hI.eval_low32to8 (hI.eval_and32 htemp rfl)
  have hstart : CrChanged env.layout p.stage.fresh (Layout.InField env.layout f)
      (m.state.cr env.layout) m bound := .bind m (Nat.le_refl _) _
  refine hstart.trans ?_
  simp only [Function.comp, he.eval m hm]
  rw [hvalue 1, hvalue 0xE bound.state, GuestState.write_field]
  exact .withCrBytes hf (CrWord.nibble_bytes v) bound

theorem putCrBit_changes (hI : I.Bitwise) (hp : p.stage.Level) {b : Nat} (hb : b < 32)
    (he : Operand I p.stage R e value) :
    Lift.ChangesCr env I p R (putCrBit b e) (· = GuestState.crByte env.layout b)
      fun m => withBit (m.state.cr env.layout) b ((value m).getLsbD 0) := by
  unfold putCrBit
  rw [Lift.crBit_eq hb]
  refine .after (.still hp (Lift.exec_ofExcept env p _)) ?_
  have hplace := Layout.crBit_place env.layout hb
  have hbit : p.stage.check (bin .and32 e (.u32 1)) = .ok .i32 := Stage.check_bin rfl he.check rfl
  have heval : ∀ m, R m → (bin .and32 e (.u32 1)).eval I m =
      .i32 (value m &&& 1) :=
    fun m hm => hI.eval_and32 (he.eval m hm) rfl
  by_cases hzero : 3 - b % 4 = 0
  · simp only [hzero, if_true] at hplace ⊢
    refine ⟨_, _, Lift.putSlot_does hp hplace (Stage.check_un rfl hbit), fun m hm => ?_⟩
    rw [hI.eval_low32to8 (heval m hm)]
    refine .writeByte hb ?_ m (fun h => absurd hzero h) I.order
    simp [hzero]
  · simp only [hzero, if_false]
    refine .after (.still hp (exec_getByte32 hplace)) ?_
    refine ⟨_, _, Lift.putSlot_does hp hplace (Stage.check_un rfl (Stage.check_bin rfl
      (Stage.check_bin rfl (byte32_check p.stage _) rfl) (Stage.check_bin rfl hbit rfl))),
      fun m hm => ?_⟩
    -- The other bits of the byte are those that it had.
    let byte := m.state (GuestState.crByte env.layout b)
    have hmerged := CrWord.getLsbD_merged byte (n := 3 - b % 4) (by omega) (value m)
    rw [show Expr.eval I m _ = .i8 (CrWord.merged byte (3 - b % 4) (value m)) from
      hI.eval_low32to8 (hI.eval_or32 (hI.eval_and32 (byte32_eval hI _ m) rfl)
        (hI.eval_shl32 (heval m hm) (crBit_toNat b) (by omega)))]
    refine .writeByte hb ?_ m (fun _ k hk => ?_) I.order
    · rw [hmerged, if_pos rfl]
    · rw [hmerged, if_neg hk]

/-- Whether a mask has a bit of a condition field. -/
def maskField (mask : BitVec 64) (f : Nat) : Bool := (mask >>> (28 - 4 * f)) &&& 0xF != 0

/-- The bytes of the chosen condition fields. -/
def Layout.InFields (arch : Arch) (chosen : Nat → Bool) (o : Nat) : Prop :=
  ∃ f < 8, chosen f = true ∧ InField arch f o

/-- One field of a masked write, with the value in a temporary. -/
theorem putCrNibble_changes (hI : I.Bitwise) (hp : p.stage.Level) (chosen : Nat → Bool) {f t : Nat}
    (hf : f < 8) (ht : p.stage.check (.tmp t) = .ok .i32) :
    Lift.ChangesCr env I p (fun m => ∃ v, m.temps t = .i32 v)
      (if chosen f then
        putCrField f (bin .and32 (bin .shr32 (.tmp t) (.u8 (Lift.crShift f))) (.u32 0xF))
      else pure ()) (Layout.InFields env.layout chosen) fun m =>
        withChosen chosen (m.temps t).word (m.state.cr env.layout) f := by
  unfold withChosen
  by_cases hchosen : chosen f = true
  · have hnibble : Operand I p.stage (fun m => ∃ v, m.temps t = .i32 v)
        (bin .and32 (bin .shr32 (.tmp t) (.u8 (Lift.crShift f))) (.u32 0xF))
        fun m => ((m.temps t).word >>> (28 - 4 * f)) &&& 0xF := by
      refine ⟨Stage.check_bin rfl (Stage.check_bin rfl ht rfl) rfl, ?_⟩
      rintro m ⟨v, hv⟩
      have htemp : (Expr.tmp t).eval I m = .i32 v := hv
      rw [hv, Value.word_i32]
      exact hI.eval_and32 (hI.eval_shr32 htemp (crShift_toNat f) (by omega)) rfl
    simp only [if_pos hchosen]
    refine (putCrField_changes hI hp hf hnibble).mono (fun m hm => ⟨hm, ?_⟩)
      fun o ho => ⟨f, hf, hchosen, ho⟩
    exact congrArg (withField _ f) (CrWord.setWidth_shiftRight f)
  · simp only [if_neg hchosen]
    exact ⟨p, id, .still hp rfl, fun m _ => .refl m⟩

/-- The fields of a masked write in turn. -/
theorem putCrNibbles_changes (hI : I.Bitwise) (hp : p.stage.Level) (chosen : Nat → Bool)
    {fs : List Nat} (hfs : ∀ f ∈ fs, f < 8) {t : Nat} (ht : p.stage.check (.tmp t) = .ok .i32)
    (hlt : t < p.stage.fresh) :
    Lift.ChangesCr env I p (fun m => ∃ v, m.temps t = .i32 v)
      (fs.forM fun f =>
        if chosen f then
          putCrField f (bin .and32 (bin .shr32 (.tmp t) (.u8 (Lift.crShift f))) (.u32 0xF))
        else pure ()) (Layout.InFields env.layout chosen) fun m =>
          withEach chosen (m.temps t).word fs (m.state.cr env.layout) := by
  refine .forM (.refl hp) (fun m => withChosen chosen (m.temps t).word)
    (fun f hf p' hp' =>
      putCrNibble_changes hI hp'.level chosen (hfs f hf) (hp'.check _ _ ht)) ?_
  rintro m m' x hm hchanged
  rw [hchanged.temps t hlt]
  exact ⟨hm, rfl⟩

theorem putCrMasked_changes (hI : I.Bitwise) (hp : p.stage.Level) (mask : BitVec 64)
    (he : Operand I p.stage R e value) :
    Lift.ChangesCr env I p R (putCrMasked e mask) (Layout.InFields env.layout (maskField mask))
      fun m => withFields (m.state.cr env.layout) (maskField mask) (value m) := by
  have hbind : Does env I p (Lift.bind e) _ _ _ := Lift.bind_does hp he.check
  have hlt : p.stage.fresh < (p.stage.withTemp e .i32).fresh := Stage.fresh_lt_withTemp e .i32
  refine .bound hp he.check (putCrNibbles_changes hI hbind.follows.level (maskField mask)
    (fun f hf => List.mem_range.mp hf) (Stage.check_fresh hp e .i32) hlt) fun m hm => ?_
  rw [he.eval m hm]
  have htemp : (m.bind p.stage.fresh (.i32 (value m))).temps p.stage.fresh = .i32 (value m) := by
    simp [Machine.bind]
  rw [htemp, Value.word_i32]
  exact ⟨⟨_, rfl⟩, rfl⟩

end PowerLift
