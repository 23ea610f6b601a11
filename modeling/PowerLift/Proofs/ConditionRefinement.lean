import PowerLift.Proofs.ConditionInstruction

/-!
# The condition register as a plain word

The sixteen condition bytes of the record stand for a register of 32 bits. Whatever the bytes hold,
every reader gives what it gives of the register, and every write, by code or by an instruction,
does to the bytes what it does to the register. So do any writes in turn.
-/

namespace PowerLift

open CrWord (bit field withBit withField withFields)
open Lift (Does exec getCrBit getCrField putCrBit putCrField instruction)

variable {M : Type} {I : Interp M} {env : Env} {p : Progress} {w : Insn}

/-! ## Writes -/

/-- A write of the condition register: from an expression, or by an instruction. -/
inductive CrWrite where
  | bit (b : Nat) (e : Expr)
  | field (f : Nat) (e : Expr)
  | whole (e : Expr)
  | masked (mask : BitVec 64) (e : Expr)
  | insn (w : Insn)

namespace CrWrite

/-- The code of a write. -/
def lift : CrWrite → Lift Unit
  | bit b e => putCrBit b e
  | field f e => putCrField f e
  | whole e => Lift.putSpecial .cr e
  | masked mask e => Lift.putSpecialMasked .cr e mask
  | insn w => instruction w

/-- What a write does to a plain word, and which bytes it is for, in machines in which the values
of its operands depend on the condition register only. -/
inductive Means (env : Env) (I : Interp M) (s : Stage) (R : Machine M → Prop) :
    CrWrite → (Nat → Prop) → (BitVec 32 → BitVec 32) → Prop where
  | bit {b : Nat} (hb : b < 32) {e : Expr} {v : BitVec 32 → BitVec 32}
    (he : Operand I s R e fun m => v (m.state.cr env.layout)) :
    Means env I s R (.bit b e) (· = GuestState.crByte env.layout b)
      fun x => withBit x b ((v x).getLsbD 0)
  | field {f : Nat} (hf : f < 8) {e : Expr} {v : BitVec 32 → BitVec 32}
    (he : Operand I s R e fun m => v (m.state.cr env.layout)) :
    Means env I s R (.field f e) (Layout.InField env.layout f)
      fun x => withField x f ((v x).setWidth 4)
  | whole {e : Expr} {v : BitVec 32 → BitVec 32}
    (he : Operand I s R e fun m => v (m.state.cr env.layout)) :
    Means env I s R (.whole e) (Layout.InFields env.layout fun _ => true) v
  | masked (mask : BitVec 64) {e : Expr} {v : BitVec 32 → BitVec 32}
    (he : Operand I s R e fun m => v (m.state.cr env.layout)) :
    Means env I s R (.masked mask e) (Layout.InFields env.layout (maskField mask))
      fun x => withFields x (maskField mask) (v x)
  | combined {w : Insn} {f : Bool → Bool → Bool} (hw : w.CombinesBits f) :
    Means env I s R (.insn w) (· = GuestState.crByte env.layout w.rd)
      fun x => withBit x w.rd (f (CrWord.bit x w.ra) (CrWord.bit x w.rb))
  | copied {w : Insn} (hw : w.CopiesField) :
    Means env I s R (.insn w) (Layout.InField env.layout w.crfd)
      fun x => withField x w.crfd (CrWord.field x w.crfs)
  | filled {w : Insn} (hw : w.FillsFields) {v : BitVec 32}
    (hv : ∀ m, R m → m.state.gprWord env.arch I.order w.rs = v) :
    Means env I s R (.insn w) (Layout.InFields env.layout w.selected)
      fun x => withFields x w.selected v

end CrWrite

namespace CrWrite.Means

variable {s s' : Stage} {R : Machine M → Prop} {c : CrWrite} {touched : Nat → Prop}
  {change : BitVec 32 → BitVec 32}

/-- A later stage gives operands the same types. -/
theorem follow (h : c.Means env I s R touched change) (hs : s.Follows s') :
    c.Means env I s' R touched change := by
  cases h with
  | bit hb he => exact .bit hb ⟨hs.check _ _ he.check, he.eval⟩
  | field hf he => exact .field hf ⟨hs.check _ _ he.check, he.eval⟩
  | whole he => exact .whole ⟨hs.check _ _ he.check, he.eval⟩
  | masked mask he => exact .masked mask ⟨hs.check _ _ he.check, he.eval⟩
  | combined hw => exact .combined hw
  | copied hw => exact .copied hw
  | filled hw hv => exact .filled hw hv

/-- All that is written are bytes of condition fields. -/
theorem inFields (h : c.Means env I s R touched change) {o : Nat} (ho : touched o) :
    Layout.InFields env.layout (fun _ => true) o := by
  have hbit : ∀ b < 32, o = GuestState.crByte env.layout b →
      Layout.InFields env.layout (fun _ => true) o := by
    intro b hb ho
    refine ⟨b / 4, by omega, rfl, ?_⟩
    rw [ho, GuestState.crByte]
    split
    · exact .inr rfl
    · exact .inl rfl
  have hfields : ∀ chosen, Layout.InFields env.layout chosen o →
      Layout.InFields env.layout (fun _ => true) o := by
    rintro chosen ⟨f, hf, -, ho⟩
    exact ⟨f, hf, rfl, ho⟩
  cases h with
  | bit hb he => exact hbit _ hb ho
  | field hf he => exact ⟨_, hf, rfl, ho⟩
  | whole he => exact ho
  | masked mask he => exact hfields _ ho
  | @combined w f hw => exact hbit _ w.rd_lt ho
  | @copied w hw => exact ⟨_, w.crfd_lt, rfl, ho⟩
  | filled hw hv => exact hfields _ ho

/-- The code of a write does to the bytes what the write does to a plain word. -/
theorem changes (hI : I.Bitwise) (hlayout : env.layout = env.arch) (hp : p.stage.Level)
    (h : c.Means env I p.stage R touched change) :
    Lift.ChangesCr env I p R c.lift touched fun m => change (m.state.cr env.layout) := by
  cases h with
  | bit hb he => exact putCrBit_changes hI hp hb he
  | field hf he => exact putCrField_changes hI hp hf he
  | whole he =>
      have hall : ∀ f < 8, maskField 0xFFFFFFFF f = true := by decide
      refine (putCrMasked_changes hI hp 0xFFFFFFFF he).mono (fun m hm => ⟨hm, ?_⟩) ?_
      · rw [CrWord.withFields_congr hall, CrWord.withFields_all]
      · exact fun o ⟨f, hf, _, ho⟩ => ⟨f, hf, rfl, ho⟩
  | masked mask he => exact putCrMasked_changes hI hp mask he
  | combined hw => exact (hw.changes hI hp).mono (fun _ _ => ⟨trivial, rfl⟩) fun _ ho => ho
  | copied hw => exact (hw.changes hI hp).mono (fun _ _ => ⟨trivial, rfl⟩) fun _ ho => ho
  | filled hw hv =>
      exact (hw.changes hI hlayout hp).mono (fun m hm => ⟨trivial, by rw [hv m hm]⟩) fun _ ho => ho

end CrWrite.Means

/-! ## Readers -/

/-- Behind `p`, every reader of the condition register finds `x` in the machine `m`. -/
structure CrShows (env : Env) (I : Interp M) (p : Progress) (m : Machine M) (x : BitVec 32) :
    Prop where
  whole : ∃ e, exec env p (Lift.getSpecial .cr) = (.ok e, p) ∧ e.eval I m = .i32 x
  field : ∀ f < 8, ∃ e, exec env p (getCrField f) = (.ok e, p) ∧
    e.eval I m = .i32 ((CrWord.field x f).setWidth 32)
  bit : ∀ b < 32, ∃ e, exec env p (getCrBit b) = (.ok e, p) ∧
    e.eval I m = .i32 ((BitVec.ofBool (CrWord.bit x b)).setWidth 32)
  moved : ∀ (w : Insn) (value : BitVec 32 → BitVec 32), w.ReadsCr value →
    ∃ p' F, Does env I p (instruction w) () p' F ∧
      GprChanged env.arch I.order p.stage.fresh w.rd (value x) m (F m)

theorem crShows_cr (hI : I.Bitwise) (hlayout : env.layout = env.arch) (hp : p.stage.Level)
    (m : Machine M) : CrShows env I p m (m.state.cr env.layout) where
  whole := by
    obtain ⟨e, hexec, -, heval⟩ := getCr_yields (p := p) hI
    exact ⟨e, hexec, heval m⟩
  field f hf := by
    obtain ⟨e, hexec, -, heval⟩ := getCrField_yields (p := p) hI hf
    exact ⟨e, hexec, heval m⟩
  bit b hb := by
    obtain ⟨e, hexec, -, heval⟩ := getCrBit_yields (p := p) hI hb
    exact ⟨e, hexec, heval m⟩
  moved w value hw := by
    obtain ⟨p', F, hdoes, hmoved⟩ := hw.moves hI hlayout hp
    exact ⟨p', F, hdoes, hmoved m⟩

/-! ## Writes in turn -/

/-- Machines that differ from `m` at most in the condition register and in temporaries from `n`. -/
def CrVariant (arch : Arch) (n : Nat) (m m' : Machine M) : Prop :=
  ∃ x, CrChanged arch n (Layout.InFields arch fun _ => true) x m m'

/-- Writes of the condition register, in any order and with any operands. -/
theorem writes_change (hI : I.Bitwise) (hlayout : env.layout = env.arch) (hp : p.stage.Level)
    (m : Machine M) (steps : List (CrWrite × (BitVec 32 → BitVec 32)))
    (hsteps : ∀ step ∈ steps, ∃ touched,
      step.1.Means env I p.stage (CrVariant env.layout p.stage.fresh m) touched step.2) :
    Lift.ChangesCr env I p (CrVariant env.layout p.stage.fresh m)
      (steps.forM fun step => step.1.lift) (Layout.InFields env.layout fun _ => true) fun m' =>
        steps.foldl (fun x step => step.2 x) (m'.state.cr env.layout) := by
  refine .forM (.refl hp) (fun _ x (step : CrWrite × (BitVec 32 → BitVec 32)) => step.2 x)
    (fun step hstep p' hp' => ?_) ?_
  · obtain ⟨touched, hmeans⟩ := hsteps step hstep
    exact ((hmeans.follow hp').changes hI hlayout hp'.level).mono (fun m' hm' => ⟨hm', rfl⟩)
      fun o ho => hmeans.inFields ho
  · rintro m₁ m₂ x ⟨y, h₁⟩ h₂
    exact ⟨⟨x, h₁.trans h₂⟩, rfl⟩

/-- The condition bytes refine a register of 32 bits: whatever they hold, every reader gives what it
gives of the register, every write does what it does to the register and touches its own bytes
only, and so do any writes in turn. -/
theorem ConditionRegister.storage_refines {M : Type} (I : Interp M) (hI : I.Bitwise) (env : Env)
    (hlayout : env.layout = env.arch) (p : Progress) (hp : p.stage.Level) :
    (∀ m, CrShows env I p m (m.state.cr env.layout)) ∧
    (∀ (R : Machine M → Prop) (c : CrWrite) (touched : Nat → Prop)
      (change : BitVec 32 → BitVec 32), c.Means env I p.stage R touched change →
      ∃ p' F, Does env I p c.lift () p' F ∧ ∀ m, R m → CrChanged env.layout p.stage.fresh touched
        (change (m.state.cr env.layout)) m (F m)) ∧
    ∀ (m : Machine M) (steps : List (CrWrite × (BitVec 32 → BitVec 32))),
      (∀ step ∈ steps, ∃ touched,
        step.1.Means env I p.stage (CrVariant env.layout p.stage.fresh m) touched step.2) →
      ∃ p' F, Does env I p (steps.forM fun step => step.1.lift) () p' F ∧
        let x := steps.foldl (fun x step => step.2 x) (m.state.cr env.layout)
        CrChanged env.layout p.stage.fresh (Layout.InFields env.layout fun _ => true) x m (F m) ∧
          CrShows env I p' (F m) x := by
  refine ⟨crShows_cr hI hlayout hp, fun R c touched change hc => hc.changes hI hlayout hp, ?_⟩
  intro m steps hsteps
  obtain ⟨p', F, hdoes, hchanged⟩ := writes_change hI hlayout hp m steps hsteps
  have hm := hchanged m ⟨_, .refl m⟩
  refine ⟨p', F, hdoes, hm, ?_⟩
  have hshows := crShows_cr hI hlayout hdoes.follows.level (F m)
  rwa [hm.cr_eq] at hshows

/-- General registers are no part of the condition register. -/
theorem CrVariant.gprWord_eq {arch : Arch} {n : Nat} {m m' : Machine M} (h : CrVariant arch n m m')
    (order : ByteOrder) {i : Nat} (hi : i < 32) :
    m'.state.gprWord arch order i = m.state.gprWord arch order i := by
  obtain ⟨x, hchanged⟩ := h
  refine congrArg (BitVec.setWidth 32) (GuestState.read_congr fun o hge hlt => ?_)
  refine hchanged.bytes o ?_
  rintro ⟨f, -, -, ho⟩
  -- All general registers lie below the condition bytes.
  have hbytes := Layout.wordTy_bytes arch
  have hend : i * arch.wordBytes + arch.wordBytes ≤ 32 * arch.wordBytes := Layout.gpr_end hi
  have hgprs := Layout.gprs_below_vsrs arch
  have hspecial := Layout.specialBase_eq arch
  have hcr := Layout.specialBase_le_crBase arch
  rcases ho with ho | ho <;> omega

/-- A bit is combined with itself, a field is written and copied, and another is moved from a
general register, in a record whose bytes have all their bits set. -/
theorem ConditionRegister.storage_refines_copy :
    let env : Env := default
    let p : Progress := { stage := .start (.empty 1280) }
    let m : Machine Unit := .start () fun _ => 0xFF
    let writes : List CrWrite :=
      [.insn ⟨0x4CC63182⟩, .field 1 (.u32 5), .insn ⟨0x4F840000⟩, .insn ⟨0x7C640120⟩]
    ∃ p' F, Does env (.integer .little) p (writes.forM CrWrite.lift) () p' F ∧
      CrShows env (.integer .little) p' (F m) 0xFFFFFFF5 := by
  intro env p m writes
  let combine : Insn := ⟨0x4CC63182⟩
  let copy : Insn := ⟨0x4F840000⟩
  let fill : Insn := ⟨0x7C640120⟩
  let steps : List (CrWrite × (BitVec 32 → BitVec 32)) :=
    [(.insn combine, fun x => withBit x combine.rd (bit x combine.ra ^^ bit x combine.rb)),
     (.field 1 (.u32 5), fun x => withField x 1 ((5#32).setWidth 4)),
     (.insn copy, fun x => withField x copy.crfd (field x copy.crfs)),
     (.insn fill, fun x => withFields x fill.selected 0xFFFFFFFF)]
  have hcombine : combine.CombinesBits fun a b => a ^^ b := by
    refine ⟨by decide, ?_, by decide⟩
    rw [show combine.xo10 = 193 by decide]
    rfl
  have hfill : ∀ m', CrVariant env.layout p.stage.fresh m m' →
      m'.state.gprWord env.arch .little fill.rs = 0xFFFFFFFF := by
    intro m' hm'
    refine (hm'.gprWord_eq .little fill.rd_lt).trans ?_
    decide +kernel
  have hsteps : ∀ step ∈ steps, ∃ touched, step.1.Means env (.integer .little) p.stage
      (CrVariant env.layout p.stage.fresh m) touched step.2 := by
    simp only [steps, List.forall_mem_cons]
    refine ⟨⟨_, .combined hcombine⟩,
      ⟨_, .field (v := fun _ => 5#32) (by decide) ⟨rfl, fun _ _ => rfl⟩⟩,
      ⟨_, .copied ⟨by decide, by decide, by decide, by decide, by decide⟩⟩,
      ⟨_, .filled ⟨by decide, by decide, by decide, by decide, by decide⟩ hfill⟩, by simp⟩
  obtain ⟨-, -, hrun⟩ :=
    storage_refines (.integer .little) (Interp.integer_bitwise .little) env rfl p rfl
  obtain ⟨p', F, hdoes, -, hshows⟩ := hrun m steps hsteps
  have hx : steps.foldl (fun x step => step.2 x) (m.state.cr env.layout) = 0xFFFFFFF5 := by
    decide +kernel
  exact ⟨p', F, hdoes, hx ▸ hshows⟩

end PowerLift
